import CowArrays.Compression.Settings
import CowArrays.Proofs.Json.Members

/-!
Settings are read by field. Whatever the order of the members of an object and whatever stands
among them, the fields that are given take their values and the others keep their defaults; a field
that is given twice or given something else than a value of its type is a fault.
-/

namespace CowArrays.Settings

open Json

def keys : List Octets := [word "threshold", word "parallel", word "min_parallel_rows"]

/-- What one member does to the fields found so far. -/
def step (found : Found) (x : Octets × Octets) : Option Found :=
  if x.1 = word "threshold" then
    (takeField scalar found.threshold x.2).map fun o => { found with threshold := o }
  else if x.1 = word "parallel" then
    (takeField bool found.parallel x.2).map fun o => { found with parallel := o }
  else if x.1 = word "min_parallel_rows" then
    (takeField index found.minParallelRows x.2).map fun o => { found with minParallelRows := o }
  else some found

/-- What the members of an object make of the fields. -/
structure Assigns (start : Found) (xs : List (Octets × Octets)) (found : Found) : Prop where
  threshold : Taken SaysScalar start.threshold (valuesOf (word "threshold") xs) found.threshold
  parallel : Taken SaysBool start.parallel (valuesOf (word "parallel") xs) found.parallel
  minParallelRows : Taken SaysIndex start.minParallelRows
    (valuesOf (word "min_parallel_rows") xs) found.minParallelRows

theorem assigns_iff {start found : Found} {xs : List (Octets × Octets)} : Assigns start xs found ↔
    Taken SaysScalar start.threshold (valuesOf (word "threshold") xs) found.threshold ∧
      Taken SaysBool start.parallel (valuesOf (word "parallel") xs) found.parallel ∧
        Taken SaysIndex start.minParallelRows (valuesOf (word "min_parallel_rows") xs)
          found.minParallelRows :=
  ⟨fun h => ⟨h.threshold, h.parallel, h.minParallelRows⟩, fun h => ⟨h.1, h.2.1, h.2.2⟩⟩

/-! ### One member -/

theorem keys_ne : word "parallel" ≠ word "threshold" ∧
    word "min_parallel_rows" ≠ word "threshold" ∧ word "min_parallel_rows" ≠ word "parallel" := by
  decide

theorem follows_readMember {k w : Octets} (hw : IsValue w) : Follows readMember step (k, w) := by
  intro before behind rest found hbefore hbehind hends
  rw [readMember, step]
  dsimp only
  split
  · exact toOption_field (understands_scalar.readsAlike hw) hbefore hbehind hends found.threshold
      fun o => { found with threshold := o }
  split
  · exact toOption_field (understands_bool.readsAlike hw) hbefore hbehind hends found.parallel
      fun o => { found with parallel := o }
  split
  · exact toOption_field (understands_index.readsAlike hw) hbefore hbehind hends
      found.minParallelRows fun o => { found with minParallelRows := o }
  · rw [skipMember_append hw hbefore hbehind hends]
    rfl

/-! ### All members -/

/-- The run over the members succeeds where every field takes what the members give to it. -/
theorem run_eq_some_iff {xs : List (Octets × Octets)} (hxs : ∀ x ∈ xs, IsValue x.2)
    {start found : Found} : xs.foldlM step start = some found ↔ Assigns start xs found := by
  obtain ⟨hparallel, hrows, hrows'⟩ := keys_ne
  induction xs generalizing start with
  | nil =>
    constructor
    · intro h
      obtain rfl := Option.some.inj h
      exact ⟨.kept, .kept, .kept⟩
    · rintro ⟨hthreshold, hparallel, hrows⟩
      obtain ⟨threshold, parallel, rows⟩ := found
      obtain ⟨_, _, _⟩ := start
      cases hthreshold
      cases hparallel
      cases hrows
      rfl
  | cons x xs ih =>
    obtain ⟨k, w⟩ := x
    obtain ⟨hw, hxs⟩ := List.forall_mem_cons.1 hxs
    have hbind : List.foldlM step start ((k, w) :: xs) = some found ↔
        ∃ next, step start (k, w) = some next ∧ Assigns next xs found := by
      rw [List.foldlM_cons]
      refine Option.bind_eq_some_iff.trans (exists_congr fun next => ?_)
      rw [ih hxs]
    rw [hbind, step]
    dsimp only
    -- the key decides which field the value is for, and the others see no value
    by_cases hk : k = word "threshold"
    · subst hk
      simp only [assigns_iff, if_true, valuesOf_cons_of_eq, valuesOf_cons_of_ne hparallel.symm,
        valuesOf_cons_of_ne hrows.symm]
      exact takeField_bind (understands_scalar.said_iff hw) fun _ => Iff.rfl
    by_cases hk' : k = word "parallel"
    · subst hk'
      simp only [assigns_iff, if_neg hk, if_true, valuesOf_cons_of_eq,
        valuesOf_cons_of_ne hparallel, valuesOf_cons_of_ne hrows'.symm]
      rw [and_left_comm]
      exact takeField_bind (understands_bool.said_iff hw) fun _ => and_left_comm
    by_cases hk'' : k = word "min_parallel_rows"
    · subst hk''
      simp only [assigns_iff, if_neg hk, if_neg hk', if_true, valuesOf_cons_of_eq,
        valuesOf_cons_of_ne hrows, valuesOf_cons_of_ne hrows']
      rw [← and_assoc, and_comm]
      exact takeField_bind (understands_index.said_iff hw) fun _ => and_assoc.symm.trans and_comm
    rw [if_neg hk, if_neg hk', if_neg hk'', assigns_iff, valuesOf_cons_of_ne hk,
      valuesOf_cons_of_ne hk', valuesOf_cons_of_ne hk'', ← assigns_iff]
    exact ⟨fun ⟨next, hnext, h⟩ => Option.some.inj hnext ▸ h, fun h => ⟨start, rfl, h⟩⟩

/-! ### Both forms -/

theorem read_object {w before rest : Octets} {xs : List (Octets × Octets)}
    (h : Enclosed (Member SpellsString IsValue) openObject closeObject w xs)
    (hbefore : Blanks before) : (read (before ++ (w ++ rest))).toOption =
      (xs.foldlM step {}).map fun found => (found.complete, rest) := by
  have hne : openObject ≠ openList := by decide
  obtain ⟨s, rfl, hrun⟩ := members_object h
    (fun _ hx => follows_readMember (h.forall_mem Member.value _ hx)) rest {}
  rw [read, List.cons_append, skipBlanks_append_cons hbefore rfl]
  dsimp only
  rw [if_neg hne, if_pos rfl, toOption_bind, hrun, Option.bind_map]
  cases xs.foldlM step {} <;> rfl

theorem step_threshold (w : Octets) :
    step {} (word "threshold", w) = (said scalar w).map fun x => { threshold := some x } := by
  rw [step, if_pos rfl, takeField]
  cases said scalar w <;> rfl

theorem step_parallel (x : Scalar .double) (w : Octets) :
    step { threshold := some x } (word "parallel", w) =
      (said bool w).map fun b => { threshold := some x, parallel := some b } := by
  rw [step, if_neg keys_ne.1, if_pos rfl, takeField]
  cases said bool w <;> rfl

theorem step_minParallelRows (x : Scalar .double) (b : Bool) (w : Octets) :
    step { threshold := some x, parallel := some b } (word "min_parallel_rows", w) =
      (said index w).map fun n => ⟨some x, some b, some n⟩ := by
  rw [step, if_neg keys_ne.2.1, if_neg keys_ne.2.2, if_pos rfl, takeField]
  cases said index w <;> rfl

def readField {α : Type} (first : Bool) (found : Found) (value : Octets → Reads α)
    (next : α → Octets → Except Fault (Found × Octets)) (s : Octets) :
    Except Fault (Found × Octets) := do
  match ← nextItem first s with
  | none => return (found, s)
  | some s =>
    let (x, s) ← value s
    next x s

theorem readItems_eq : readItems = readField true {} scalar fun x =>
    readField false { threshold := some x } bool fun b =>
      readField false { threshold := some x, parallel := some b } index fun n s =>
        return (⟨some x, some b, some n⟩, s) := rfl

/-- The end of the list form, and defaults for the fields that it does not give. -/
def finish (r : Except Fault (Found × Octets)) : Except Fault (Settings × Octets) := do
  let (found, s) ← r
  return (found.complete, ← endList s)

section

variable {α : Type} {first : Bool} {found : Found} {value : Octets → Reads α}
  {next : α → Octets → Except Fault (Found × Octets)} {s a tail rest : Octets} {xs : List Octets}

/-- A value that comes next is read where it is one for the field. -/
theorem finish_readField (ha : ReadsAlike value a) (hends : Ends rest)
    (hnext : nextItem first s = .ok (some (a ++ rest))) :
    (finish (readField first found value next s)).toOption =
      (said value a).bind fun x => (finish (next x rest)).toOption := by
  rw [readField, hnext]
  show (finish (Except.bind (value ([] ++ (a ++ rest))) _)).toOption = _
  rcases ha blanks_nil hends with ⟨x, hsaid, hread⟩ | ⟨hsaid, fault, hread⟩
  · rw [hsaid, hread]
    rfl
  · rw [hsaid, hread]
    rfl

theorem finish_readField_more {meaning : Octets → α → Prop} (hvalue : Understands value meaning)
    (h : Tail (Item IsValue) closeList tail (a :: xs)) (rest : Octets) :
    ∃ tail', Tail (Item IsValue) closeList tail' xs ∧ ∀ found next,
      (finish (readField false found value next (tail ++ rest))).toOption =
        (said value a).bind fun x => (finish (next x (tail' ++ rest))).toOption := by
  cases h with
  | @more before behind _ tail' _ _ hbefore hbehind ha htail =>
    obtain ⟨ha, rfl⟩ := ha
    have hnext := nextItem_comma hbefore hbehind ha.skips.starts (tail' ++ rest)
    refine ⟨tail', htail, fun found next => ?_⟩
    rw [List.append_assoc, List.cons_append, List.append_assoc, List.append_assoc]
    exact finish_readField (hvalue.readsAlike ha) (htail.ends (.inl rfl) rest) hnext

variable {blanks : Octets} (hblanks : Blanks blanks)

include hblanks

theorem finish_close (found : Found) (rest : Octets) :
    finish (.ok (found, blanks ++ closeList :: rest)) = .ok (found.complete, rest) := by
  show Except.bind (endList (blanks ++ closeList :: rest)) _ = _
  rw [endList_close hblanks]
  rfl

theorem finish_readField_close (first : Bool) (found : Found) (value : Octets → Reads α)
    (next : α → Octets → Except Fault (Found × Octets)) (rest : Octets) :
    finish (readField first found value next (blanks ++ closeList :: rest)) =
      .ok (found.complete, rest) := by
  rw [readField, nextItem_close hblanks]
  exact finish_close hblanks found rest

end

/-- The list form is read as the run over as many of the fields. -/
theorem read_list {w before rest : Octets} {items : List Octets}
    (h : Enclosed (Item IsValue) openList closeList w items) (hcount : items.length ≤ 3)
    (hbefore : Blanks before) : (read (before ++ (w ++ rest))).toOption =
      ((keys.zip items).foldlM step {}).map fun found => (found.complete, rest) := by
  have hread (s : Octets) : read (before ++ openList :: s) = finish (readItems s) := by
    rw [read, skipBlanks_append_cons hbefore rfl]
    rfl
  have hend {tail : Octets} (htail : Tail (Item IsValue) closeList tail []) :
      ∃ blanks, Blanks blanks ∧ tail ++ rest = blanks ++ closeList :: rest := by
    cases htail with
    | done hblanks => exact ⟨_, hblanks, by simp⟩
  rw [readItems_eq] at hread
  cases h with
  | @empty inner hinner =>
    rw [List.cons_append, hread, List.append_assoc, List.singleton_append,
      finish_readField_close hinner]
    rfl
  | @items inner _ tail a xs hinner ha htail =>
    obtain ⟨ha, rfl⟩ := ha
    have hnext := nextItem_first hinner ha.skips.starts (tail ++ rest)
    rw [List.cons_append, hread, List.append_assoc, List.append_assoc,
      finish_readField (understands_scalar.readsAlike ha) (htail.ends (.inl rfl) rest) hnext, keys,
      List.zip_cons_cons, List.foldlM_cons, step_threshold]
    -- behind each value the list ends, or goes on with the next field
    cases said scalar a with
    | none => rfl
    | some x =>
      show (finish (readField false { threshold := some x } _ _ _)).toOption =
        ((List.foldlM step { threshold := some x } _).map _)
      rcases xs with _ | ⟨b, xs⟩
      · obtain ⟨blanks, hblanks, htext⟩ := hend htail
        rw [htext, finish_readField_close hblanks]
        rfl
      obtain ⟨tail', htail', hparallel⟩ := finish_readField_more understands_bool htail rest
      rw [hparallel, List.zip_cons_cons, List.foldlM_cons, step_parallel]
      cases said bool b with
      | none => rfl
      | some y =>
        show (finish (readField false { threshold := some x, parallel := some y } _ _ _)).toOption =
          ((List.foldlM step { threshold := some x, parallel := some y } _).map _)
        rcases xs with _ | ⟨c, xs⟩
        · obtain ⟨blanks, hblanks, htext⟩ := hend htail'
          rw [htext, finish_readField_close hblanks]
          rfl
        obtain ⟨tail'', htail'', hrows⟩ := finish_readField_more understands_index htail' rest
        rw [hrows, List.zip_cons_cons, List.foldlM_cons, step_minParallelRows]
        cases said index c with
        | none => rfl
        | some n =>
          rcases xs with _ | ⟨d, xs⟩
          · obtain ⟨blanks, hblanks, htext⟩ := hend htail''
            show (finish (.ok (⟨some x, some y, some n⟩, tail'' ++ rest))).toOption = _
            rw [htext, finish_close hblanks]
            rfl
          · simp only [List.length_cons] at hcount
            omega

theorem toOption_ofJson_object {w before behind : Octets} {xs : List (Octets × Octets)}
    (h : Enclosed (Member SpellsString IsValue) openObject closeObject w xs)
    (hbefore : Blanks before) (hbehind : Blanks behind) :
    (ofJson (before ++ (w ++ behind))).toOption = (xs.foldlM step {}).map Found.complete := by
  refine toOption_document hbehind ?_
  rw [read_object h hbefore, Option.map_map]
  rfl

theorem toOption_ofJson_list {w before behind : Octets} {items : List Octets}
    (h : Enclosed (Item IsValue) openList closeList w items) (hcount : items.length ≤ 3)
    (hbefore : Blanks before) (hbehind : Blanks behind) :
    (ofJson (before ++ (w ++ behind))).toOption =
      ((keys.zip items).foldlM step {}).map Found.complete := by
  refine toOption_document hbehind ?_
  rw [read_list h hcount hbefore, Option.map_map]
  rfl

/-! ### What the members say -/

/-- A default where no value is given, or the one value that is. -/
inductive Chosen {α : Type} (meaning : Octets → α → Prop) (default : α) : List Octets → α → Prop
  | absent : Chosen meaning default [] default
  | given {w : Octets} {x : α} (h : meaning w x) : Chosen meaning default [w] x

/-- The settings that members of an object stand for: each field has the one value that is given for
it, or its default. -/
structure Configures (xs : List (Octets × Octets)) (s : Settings) : Prop where
  threshold : Chosen SaysScalar default.threshold (valuesOf (word "threshold") xs) s.threshold
  parallel : Chosen SaysBool default.parallel (valuesOf (word "parallel") xs) s.parallel
  minParallelRows : Chosen SaysIndex default.minParallelRows
    (valuesOf (word "min_parallel_rows") xs) s.minParallelRows

/-- Members that give a field twice, or give it what is no value of its type. -/
inductive Offends (xs : List (Octets × Octets)) : Prop
  | repeated {k : Octets} (hk : k ∈ keys) (h : 2 ≤ (valuesOf k xs).length)
  | threshold {w : Octets} (h : w ∈ valuesOf (word "threshold") xs) (hw : ∀ x, ¬SaysScalar w x)
  | parallel {w : Octets} (h : w ∈ valuesOf (word "parallel") xs) (hw : ∀ b, ¬SaysBool w b)
  | minParallelRows {w : Octets} (h : w ∈ valuesOf (word "min_parallel_rows") xs)
      (hw : ∀ n, ¬SaysIndex w n)

section

variable {α : Type} {meaning : Octets → α → Prop} {d x : α} {ws ws' : List Octets}

theorem chosen_iff : Chosen meaning d ws x ↔ ∃ o, Taken meaning none ws o ∧ o.getD d = x := by
  constructor
  · rintro (_ | h)
    · exact ⟨none, .kept, rfl⟩
    · exact ⟨some x, .given h, rfl⟩
  · rintro ⟨o, ho, rfl⟩
    cases ho with
    | kept => exact .absent
    | given h => exact .given h

theorem Chosen.perm (h : Chosen meaning d ws x) (hperm : ws.Perm ws') : Chosen meaning d ws' x := by
  cases h with
  | absent =>
    rw [List.nil_perm] at hperm
    exact hperm ▸ .absent
  | given h =>
    rw [List.singleton_perm] at hperm
    exact hperm ▸ .given h

theorem Chosen.length_le (h : Chosen meaning d ws x) : ws.length ≤ 1 := by
  cases h with
  | absent => exact Nat.zero_le 1
  | given => exact Nat.le_refl 1

theorem Chosen.exists_of_mem (h : Chosen meaning d ws x) {w : Octets} (hw : w ∈ ws) :
    ∃ x, meaning w x := by
  cases h with
  | absent => cases hw
  | given h => exact ⟨x, List.mem_singleton.1 hw ▸ h⟩

end

variable {xs ys : List (Octets × Octets)} {s : Settings}

theorem Configures.perm (h : Configures xs s) (hperm : xs.Perm ys) : Configures ys s := by
  have hvalues (k : Octets) : (valuesOf k xs).Perm (valuesOf k ys) := (hperm.filter _).map _
  exact ⟨h.threshold.perm (hvalues _), h.parallel.perm (hvalues _),
    h.minParallelRows.perm (hvalues _)⟩

theorem Offends.not_configures (h : Offends xs) : ¬Configures xs s := by
  rintro ⟨hthreshold, hparallel, hrows⟩
  cases h with
  | repeated hk h =>
    have hle {k : Octets} : k ∈ keys → (valuesOf k xs).length ≤ 1 := by
      simp only [keys, List.mem_cons, List.not_mem_nil, or_false]
      rintro (rfl | rfl | rfl)
      · exact hthreshold.length_le
      · exact hparallel.length_le
      · exact hrows.length_le
    exact absurd (hle hk) (by omega)
  | threshold h hw => exact absurd (hthreshold.exists_of_mem h) (not_exists.2 hw)
  | parallel h hw => exact absurd (hparallel.exists_of_mem h) (not_exists.2 hw)
  | minParallelRows h hw => exact absurd (hrows.exists_of_mem h) (not_exists.2 hw)

theorem complete_run_iff (hxs : ∀ x ∈ xs, IsValue x.2) :
    (xs.foldlM step {}).map Found.complete = some s ↔ Configures xs s := by
  rw [Option.map_eq_some_iff]
  constructor
  · rintro ⟨found, hfound, rfl⟩
    have h := (run_eq_some_iff hxs).1 hfound
    exact ⟨chosen_iff.2 ⟨_, h.threshold, rfl⟩, chosen_iff.2 ⟨_, h.parallel, rfl⟩,
      chosen_iff.2 ⟨_, h.minParallelRows, rfl⟩⟩
  · rintro ⟨hthreshold, hparallel, hrows⟩
    obtain ⟨t, ht, hs⟩ := chosen_iff.1 hthreshold
    obtain ⟨b, hb, hs'⟩ := chosen_iff.1 hparallel
    obtain ⟨n, hn, hs''⟩ := chosen_iff.1 hrows
    refine ⟨⟨t, b, n⟩, (run_eq_some_iff hxs).2 ⟨ht, hb, hn⟩, ?_⟩
    rw [Found.complete, hs, hs', hs'']

/-- Settings are read from an object by field: reading succeeds exactly where every field is given
at most once and then a value of its type, whatever the order of the members and whatever values
other keys have, and a field that is given otherwise is a fault. The list form with the first fields
is read alike. -/
theorem read_by_field {w before behind : Octets}
    (h : Enclosed (Member SpellsString IsValue) openObject closeObject w xs)
    (hbefore : Blanks before) (hbehind : Blanks behind) :
    (∀ s, ofJson (before ++ (w ++ behind)) = .ok s ↔ Configures xs s) ∧
      (Offends xs → ∃ fault, ofJson (before ++ (w ++ behind)) = .error fault) ∧
        ∀ {w' before' behind' : Octets} {items : List Octets},
          Enclosed (Item IsValue) openList closeList w' items → items.length ≤ 3 →
            xs.Perm (keys.zip items) → Blanks before' → Blanks behind' →
              ∀ s, ofJson (before' ++ (w' ++ behind')) = .ok s ↔
                ofJson (before ++ (w ++ behind)) = .ok s := by
  have hxs : ∀ x ∈ xs, IsValue x.2 := h.forall_mem Member.value
  have hobject (s : Settings) : ofJson (before ++ (w ++ behind)) = .ok s ↔ Configures xs s := by
    rw [← toOption_eq_some_iff, toOption_ofJson_object h hbefore hbehind, complete_run_iff hxs]
  refine ⟨hobject, fun hoffends => ?_, ?_⟩
  · cases hread : ofJson (before ++ (w ++ behind)) with
    | error fault => exact ⟨fault, rfl⟩
    | ok s => exact absurd ((hobject s).1 hread) hoffends.not_configures
  · intro w' before' behind' items hlist hcount hperm hbefore' hbehind' s
    have hitems : ∀ x ∈ keys.zip items, IsValue x.2 :=
      fun x hx => hxs x (hperm.mem_iff.2 hx)
    rw [← toOption_eq_some_iff, toOption_ofJson_list hlist hcount hbefore' hbehind',
      complete_run_iff hitems, hobject]
    exact ⟨fun h => h.perm hperm.symm, fun h => h.perm hperm⟩

/-- A threshold of two behind a truth value and a key that is no field. The object without this key
and the list of the two fields are read as the same settings. -/
theorem read_by_field_reordered :
    let s : Settings := ⟨Scalar.ofNat 2, true, 1024⟩
    ofJson (word "\x7b\"parallel\":true,\"x\":[],\"threshold\": 2\x7d") = .ok s ∧
      ofJson (word "\x7b\"parallel\":true,\"threshold\": 2\x7d") = .ok s ∧
        ofJson (word "[2,true]") = .ok s := by
  intro s
  have hspace : Blanks [0x20] := by decide
  let two : Numeral := ⟨false, [0x32], [], none, by decide, by decide, nofun⟩
  have htwo : IsValue (word "2") := .number two
  have hmeaning : SaysScalar (word "2") (Scalar.ofNat 2) := ⟨two, rfl, rfl⟩
  have hparallel : Member SpellsString IsValue _ (word "parallel", word "true") :=
    .mk (spellsString_plain (by decide)) blanks_nil blanks_nil (.bool true)
  have hthreshold : Member SpellsString IsValue _ (word "threshold", word "2") :=
    .mk (spellsString_plain (by decide)) blanks_nil hspace htwo
  have hother : Member SpellsString IsValue _ (word "x", word "[]") :=
    .mk (spellsString_plain (by decide)) blanks_nil blanks_nil (.list (.empty blanks_nil))
  have hwhole := read_by_field (.items blanks_nil hparallel (.more blanks_nil blanks_nil hother
    (.more blanks_nil blanks_nil hthreshold (.done blanks_nil)))) blanks_nil blanks_nil
  have hpart := read_by_field (.items blanks_nil hparallel (.more blanks_nil blanks_nil hthreshold
    (.done blanks_nil))) blanks_nil blanks_nil
  have hchosen : Configures [(word "parallel", word "true"), (word "threshold", word "2")] s :=
    ⟨.given hmeaning, .given rfl, .absent⟩
  refine ⟨(hwhole.1 s).2 ⟨.given hmeaning, .given rfl, .absent⟩, (hpart.1 s).2 hchosen, ?_⟩
  have hlist : Enclosed (Item IsValue) openList closeList _ [word "2", word "true"] :=
    .items blanks_nil ⟨htwo, rfl⟩ (.more blanks_nil blanks_nil ⟨.bool true, rfl⟩ (.done blanks_nil))
  exact (hpart.2.2 hlist (by decide) (.swap _ _ _) blanks_nil blanks_nil s).2
    ((hpart.1 s).2 hchosen)

end CowArrays.Settings
