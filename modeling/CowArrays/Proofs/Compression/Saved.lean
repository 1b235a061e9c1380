import CowArrays.Proofs.Compression.Fields
import CowArrays.Proofs.Json.Scalars
import CowArrays.Proofs.Json.Written

/-!
Settings that are saved and loaded again. A finite threshold is saved as a numeral and all other
thresholds as null, which no field of numbers takes: settings come back where the threshold is finite
and its numeral stands for it, and those with an infinite threshold are lost.
-/

namespace CowArrays.Settings

open Json

variable {l : Layout} {x : Scalar .double} {w rest : Octets}

/-! ### The written members -/

def numeralOf (x : Scalar .double) : Octets := (x.write .json).toUTF8.toList

theorem octets_null (l : Layout) : l.octets .null = word "null" := by
  have hword : "null".toUTF8.toList = word "null" := octets_word (by decide)
  cases l <;> exact hword

theorem octets_bool (l : Layout) (b : Bool) :
    l.octets (.bool b) = word (if b then "true" else "false") := by
  have hword : (if b then "true" else "false").toUTF8.toList =
      word (if b then "true" else "false") := by
    cases b <;> exact octets_word (by decide)
  cases l <;> exact hword

theorem octets_scalar (l : Layout) (h : x.isFinite = true) :
    l.octets (scalarToJson x) = numeralOf x := by
  rw [scalarToJson, if_pos h]
  cases l <;> rfl

theorem octets_scalar_null (l : Layout) (h : x.isFinite = false) :
    l.octets (scalarToJson x) = word "null" := by
  rw [scalarToJson, h, if_neg Bool.false_ne_true, octets_null]

theorem isValue_scalar (l : Layout) (x : Scalar .double) : IsValue (l.octets (scalarToJson x)) := by
  cases h : x.isFinite with
  | true =>
    obtain ⟨n, hn⟩ := exists_numeral h
    rw [octets_scalar l h, numeralOf, ← hn]
    exact .number n
  | false =>
    rw [octets_scalar_null l h]
    exact .null

/-- The members of the object that is written, with the texts of their values. -/
def saved (l : Layout) (s : Settings) : List (Octets × Octets) :=
  [(word "threshold", l.octets (scalarToJson s.threshold)),
    (word "parallel", l.octets (.bool s.parallel)),
    (word "min_parallel_rows", l.octets (.index s.minParallelRows))]

theorem isBare_keys : IsBare "threshold" ∧ IsBare "parallel" ∧ IsBare "min_parallel_rows" := by
  decide

theorem enclosed_toJson (l : Layout) {s : Settings} (hrows : s.minParallelRows < indexLimit) :
    Enclosed (Member SpellsString IsValue) openObject closeObject (l.octets s.toJson)
      (saved l.inner s) := by
  obtain ⟨hthreshold, hparallel, hminimum⟩ := isBare_keys
  have hbool : IsValue (l.inner.octets (.bool s.parallel)) := by
    rw [octets_bool]
    exact .bool s.parallel
  have hindex : IsValue (l.inner.octets (.index s.minParallelRows)) := by
    rw [l.inner.octets_index]
    exact (saysIndex_toDigits hrows).isValue
  refine l.enclosed_object (.cons ?_ (.cons ?_ (.cons ?_ .nil)))
  · exact l.inner.member_memberOctets hthreshold (isValue_scalar _ _)
  · exact l.inner.member_memberOctets hparallel hbool
  · exact l.inner.member_memberOctets hminimum hindex

/-! ### What they say -/

theorem not_saysScalar_null (x : Scalar .double) : ¬SaysScalar (word "null") x := by
  rintro ⟨n, hn, -⟩
  obtain ⟨b, s, htext, hb⟩ := n.text_cases
  rw [htext] at hn
  obtain rfl := (List.cons.inj hn).1
  revert hb
  decide

theorem saysBool_word {b c : Bool} : SaysBool (word (if b then "true" else "false")) c ↔ c = b := by
  have hne : word "true" ≠ word "false" := by decide
  cases b <;> cases c
  · exact iff_of_true rfl rfl
  · exact iff_of_false hne.symm Bool.noConfusion
  · exact iff_of_false hne Bool.noConfusion
  · exact iff_of_true rfl rfl

theorem saysIndex_octets {n m : Nat} (hn : n < indexLimit) :
    SaysIndex (l.octets (.index n)) m ↔ m = n := by
  rw [l.octets_index]
  have hsays := saysIndex_toDigits hn
  constructor
  · exact fun h => h.value.symm.trans hsays.value
  · rintro rfl
    exact hsays

theorem chosen_singleton {α : Type} {meaning : Octets → α → Prop} {d x : α} :
    Chosen meaning d [w] x ↔ meaning w x := by
  constructor
  · rintro ⟨⟩
    assumption
  · exact .given

theorem valuesOf_saved (l : Layout) (s : Settings) :
    valuesOf (word "threshold") (saved l s) = [l.octets (scalarToJson s.threshold)] ∧
      valuesOf (word "parallel") (saved l s) = [l.octets (.bool s.parallel)] ∧
        valuesOf (word "min_parallel_rows") (saved l s) = [l.octets (.index s.minParallelRows)] := by
  obtain ⟨hparallel, hrows, hrows'⟩ := keys_ne
  refine ⟨?_, ?_, ?_⟩
  · rw [saved, valuesOf_cons_of_eq, valuesOf_cons_of_ne hparallel, valuesOf_cons_of_ne hrows]
    rfl
  · rw [saved, valuesOf_cons_of_ne hparallel.symm, valuesOf_cons_of_eq, valuesOf_cons_of_ne hrows']
    rfl
  · rw [saved, valuesOf_cons_of_ne hrows.symm, valuesOf_cons_of_ne hrows'.symm, valuesOf_cons_of_eq]
    rfl

/-- What the saved members stand for: the flag and the number of rows as they were, and a threshold
that the written one says. -/
theorem configures_saved {s t : Settings} (hrows : s.minParallelRows < indexLimit) :
    Configures (saved l s) t ↔ SaysScalar (l.octets (scalarToJson s.threshold)) t.threshold ∧
      t.parallel = s.parallel ∧ t.minParallelRows = s.minParallelRows := by
  obtain ⟨hthreshold, hparallel, hminimum⟩ := valuesOf_saved l s
  have hbool : SaysBool (l.octets (.bool s.parallel)) t.parallel ↔ t.parallel = s.parallel := by
    rw [octets_bool, saysBool_word]
  constructor
  · rintro ⟨ht, hb, hn⟩
    rw [hthreshold, chosen_singleton] at ht
    rw [hparallel, chosen_singleton, hbool] at hb
    rw [hminimum, chosen_singleton, saysIndex_octets hrows] at hn
    exact ⟨ht, hb, hn⟩
  · rintro ⟨ht, hb, hn⟩
    exact ⟨hthreshold ▸ .given ht, hparallel ▸ .given (hbool.2 hb),
      hminimum ▸ .given ((saysIndex_octets hrows).2 hn)⟩

/-! ### Loading -/

theorem scalar_null {blanks : Octets} (hblanks : Blanks blanks) (rest : Octets) :
    scalar (blanks ++ (word "null" ++ rest)) = .error .unsuitable := by
  have hrefuse : refuse 0x6E (word "ull" ++ rest) = .unsuitable := by
    show (match expectWord (word "ull") (word "ull" ++ rest) with
      | .ok _ => Fault.unsuitable
      | .error e => e) = _
    rw [expectWord_append]
  have hsigned := signed_refuses (b := 0x6E) hblanks (by decide) (word "ull" ++ rest)
  show scalar (blanks ++ 0x6E :: (word "ull" ++ rest)) = _
  rw [scalar, hsigned, hrefuse]

/-- A first member whose threshold is null is a fault of its kind. -/
theorem read_null {gap space : Octets} (hgap : Blanks gap) (hspace : Blanks space) (rest : Octets) :
    read (openObject :: (gap ++ quote :: ((word "threshold" ++ [quote]) ++
      colon :: (space ++ (word "null" ++ rest))))) = .error .unsuitable := by
  have hne : openObject ≠ openList := by decide
  have hkey := string_append (spellsString_plain isBare_keys.1.isPlain)
    (colon :: (space ++ (word "null" ++ rest)))
  have hmember : readMember {} (word "threshold") (colon :: (space ++ (word "null" ++ rest))) =
      .error .unsuitable := by
    have hvalue := memberValue_append scalar blanks_nil (space ++ (word "null" ++ rest))
    rw [List.nil_append] at hvalue
    rw [readMember, if_pos rfl, hvalue, scalar_null hspace]
    rfl
  have hblank : isBlank openObject = false := rfl
  rw [read, skipBlanks_cons hblank]
  dsimp only
  rw [if_neg hne, if_pos rfl, members_refused (nextKey_first hgap hkey) hmember]
  rfl

theorem load_null {s : Settings} (h : s.threshold.isFinite = false) (l : Layout) :
    ofJson (l.octets s.toJson) = .error .unsuitable := by
  have hkey := isBare_keys.1.octets_quoted
  have htext : ∃ rest, l.octets s.toJson = openObject :: (l.inner.gap ++ quote ::
      ((word "threshold" ++ [quote]) ++ colon :: (l.inner.space ++ (word "null" ++ rest)))) := by
    rw [toJson, l.octets_object, Layout.memberOctets, hkey, octets_scalar_null _ h]
    simp only [List.cons_append, List.append_assoc]
    exact ⟨_, rfl⟩
  obtain ⟨rest, htext⟩ := htext
  rw [ofJson, document, htext, read_null l.inner.blanks_gap l.inner.blanks_space]
  rfl

/-- Saved settings are loaded as they were where their threshold is finite and its numeral stands for
it, and all other settings that they are loaded as differ in the threshold alone. No settings whose
threshold is infinite or a NaN are loaded again: these are refused for their null. -/
theorem load_saved (s : Settings) (hrows : s.minParallelRows < indexLimit) (l : Layout) :
    (∀ t, ofJson (l.octets s.toJson) = .ok t ↔ s.threshold.isFinite = true ∧
      SaysScalar (numeralOf s.threshold) t.threshold ∧ t = { s with threshold := t.threshold }) ∧
        (s.threshold.isFinite = false → ofJson (l.octets s.toJson) = .error .unsuitable) := by
  refine ⟨fun t => ?_, fun h => load_null h l⟩
  have henclosed := enclosed_toJson l hrows
  have hread := toOption_ofJson_object henclosed blanks_nil blanks_nil
  rw [List.nil_append, List.append_nil] at hread
  rw [← toOption_eq_some_iff, hread, complete_run_iff (henclosed.forall_mem Member.value),
    configures_saved hrows]
  have hfields : t = { s with threshold := t.threshold } ↔
      t.parallel = s.parallel ∧ t.minParallelRows = s.minParallelRows := by
    cases t
    simp
  rw [hfields]
  cases h : s.threshold.isFinite with
  | true => rw [octets_scalar _ h, eq_self, true_and]
  | false =>
    rw [octets_scalar_null _ h]
    exact iff_of_false (fun hsays => not_saysScalar_null _ hsays.1) nofun

/-- A tenth comes back from both forms, here with the largest number of rows. -/
theorem load_saved_tenth :
    let s : Settings := ⟨.ofBits 0x3FB999999999999A, true, indexLimit - 1⟩
    s.minParallelRows < indexLimit ∧ ofJson (Layout.compact.octets s.toJson) = .ok s ∧
      ofJson ((Layout.indented 0).octets s.toJson) = .ok s := by
  intro s
  let tenth : Numeral := ⟨false, [0x30], [0x31], none, by decide, by decide, by decide⟩
  have hrows : s.minParallelRows < indexLimit := by decide
  have htext : numeralOf s.threshold = tenth.text := by decide +kernel
  have hsays : SaysScalar (numeralOf s.threshold) s.threshold := ⟨tenth, htext, by decide +kernel⟩
  have hback : s.threshold.isFinite = true ∧ SaysScalar (numeralOf s.threshold) s.threshold ∧
      s = { s with threshold := s.threshold } := ⟨by decide, hsays, rfl⟩
  exact ⟨hrows, ((load_saved s hrows .compact).1 s).2 hback,
    ((load_saved s hrows (.indented 0)).1 s).2 hback⟩

/-- An infinite threshold compresses, and is lost where it is saved. -/
theorem infinite_threshold_lost :
    let s : Settings := .withThreshold (.infinite false)
    let g : Grid .double := .filled 1 1 .zero
    s.compress .inOrder (.full 1 1) g = .ok (.empty 1) ∧
      Layout.compact.write s.toJson =
        "\x7b\"threshold\":null,\"parallel\":false,\"min_parallel_rows\":1024\x7d" ∧
      ∀ l : Layout, ofJson (l.octets s.toJson) = .error .unsuitable := by
  intro s g
  exact ⟨by decide +kernel, by decide +kernel, load_null rfl⟩

end CowArrays.Settings
