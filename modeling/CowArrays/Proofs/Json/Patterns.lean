import CowArrays.Pattern.Text
import CowArrays.Proofs.Json.Members
import CowArrays.Proofs.Json.Written
import CowArrays.Proofs.Storage.Patterns

/-!
Patterns in JSON. The text of a pattern reads back as the pattern. A text may also list the columns
of a row in any order and more than once: it is read as the pattern of their sets, whose own text has
the rows ascending.
-/

namespace CowArrays

open Json

namespace Columns

/-- Columns are put back together from their own list. -/
theorem ofList_toList (s : Columns) : ofList s.toList = s :=
  eq_iff_mem.2 fun _ => mem_ofList

theorem toList_ofList {cs : List Nat} (h : cs.Pairwise (· < ·)) : (ofList cs).toList = cs :=
  eq_of_ascending (ofList cs).ascending h fun _ => mem_ofList

end Columns

namespace Pattern

def Writable (P : Pattern) : Prop := ∀ columns ∈ P.rows, ∀ c ∈ columns, c < indexLimit

instance (P : Pattern) : Decidable P.Writable :=
  inferInstanceAs (Decidable (∀ columns ∈ P.rows, ∀ c ∈ columns.toList, c < indexLimit))

theorem ofLists_toList (P : Pattern) : ofLists (P.rows.map Columns.toList) = P := by
  have hrows : (P.rows.map Columns.toList).map Columns.ofList = P.rows := by
    rw [List.map_map]
    exact List.map_id'' Columns.ofList_toList P.rows
  rw [ofLists, hrows]

/-! ### Texts that hold rows -/

abbrev SaysRows (w : Octets) (rows : List (List Nat)) : Prop :=
  Enclosed (Enclosed SaysIndex openList closeList) openList closeList w rows

/-- An object with the rows as one of its members, or a list of the rows alone. -/
inductive Holds (w : Octets) (rows : List (List Nat)) : Prop
  | object {xs : List (Octets × Octets)} {v : Octets}
      (h : Enclosed (Member SpellsString IsValue) openObject closeObject w xs)
      (hone : valuesOf (word "rows") xs = [v]) (hv : SaysRows v rows)
  | list (h : Enclosed SaysRows openList closeList w [rows])

variable {P Q : Pattern} {w v before behind rest : Octets} {rows : List (List Nat)}
  {xs : List (Octets × Octets)}

theorem SaysRows.spells (h : SaysRows w rows) : Spells readRows w (ofLists rows) := by
  have hlists : Spells (Json.list (Json.list index)) w rows :=
    spells_list (h.imp fun h => spells_list (h.imp understands_index.accepts))
  refine ⟨hlists.starts, fun hblanks hends => ?_⟩
  rw [readRows, hlists.reads hblanks hends]
  rfl

theorem SaysRows.isValue (h : SaysRows w rows) : IsValue w :=
  .list (h.map (fun _ => ()) fun h => .list (h.map (fun _ => ()) SaysIndex.isValue))

theorem SaysRows.below (h : SaysRows w rows) : ∀ row ∈ rows, ∀ c ∈ row, c < indexLimit :=
  h.forall_mem fun h => h.forall_mem SaysIndex.below

/-! ### The object form -/

def step (found : Option Pattern) (x : Octets × Octets) : Option (Option Pattern) :=
  if x.1 = word "rows" then takeField readRows found x.2 else some found

theorem follows_readMember {k : Octets} (hw : IsValue w)
    (hrows : k = word "rows" → ReadsAlike readRows w) : Follows readMember step (k, w) := by
  intro before behind rest found hbefore hbehind hends
  rw [readMember, step]
  dsimp only
  split
  · have hfield := toOption_field (hrows ‹_›) hbefore hbehind hends found id
    rwa [Option.map_id_fun, id] at hfield
  · rw [skipMember_append hw hbefore hbehind hends]
    rfl

theorem run_eq_some_iff {start found : Option Pattern} : xs.foldlM step start = some found ↔
    Taken (fun w P => said readRows w = some P) start (valuesOf (word "rows") xs) found := by
  induction xs generalizing start with
  | nil =>
    constructor
    · intro h
      obtain rfl := Option.some.inj h
      exact .kept
    · intro h
      cases h
      rfl
  | cons x xs ih =>
    obtain ⟨k, w⟩ := x
    rw [List.foldlM_cons]
    refine Option.bind_eq_some_iff.trans ?_
    simp only [ih]
    by_cases hk : k = word "rows"
    · subst hk
      rw [step, if_pos rfl, valuesOf_cons_of_eq, taken_cons_iff fun _ => Iff.rfl]
    · rw [step, if_neg hk, valuesOf_cons_of_ne hk]
      exact ⟨fun ⟨next, hnext, h⟩ => Option.some.inj hnext ▸ h, fun h => ⟨start, rfl, h⟩⟩

theorem read_object (h : Enclosed (Member SpellsString IsValue) openObject closeObject w xs)
    (hone : valuesOf (word "rows") xs = [v]) (hv : SaysRows v rows) (hbefore : Blanks before) :
    (read (before ++ (w ++ rest))).toOption = some (ofLists rows, rest) := by
  have hne : openObject ≠ openList := by decide
  have hsaid := said_of_spells hv.spells
  have hfollows : ∀ x ∈ xs, Follows readMember step x := by
    rintro ⟨k, w⟩ hx
    refine follows_readMember (h.forall_mem Member.value _ hx) fun hk => ?_
    have hmem : w ∈ valuesOf (word "rows") xs :=
      List.mem_map.2 ⟨(k, w), List.mem_filter.2 ⟨hx, by simp [hk]⟩, rfl⟩
    rw [hone, List.mem_singleton] at hmem
    have hread : ReadsAlike readRows v := hv.spells.readsAlike
    rwa [← hmem] at hread
  obtain ⟨s, rfl, hrun⟩ := members_object h hfollows rest none
  have htaken : xs.foldlM step none = some (some (ofLists rows)) :=
    run_eq_some_iff.2 (hone ▸ .given hsaid)
  rw [read, List.cons_append, skipBlanks_append_cons hbefore rfl]
  dsimp only
  rw [if_neg hne, if_pos rfl, toOption_bind, hrun, htaken]
  rfl

theorem read_list (h : Enclosed SaysRows openList closeList w [rows]) (hbefore : Blanks before) :
    read (before ++ (w ++ rest)) = .ok (ofLists rows, rest) := by
  cases h with
  | @items inner v tail _ _ hinner hv htail =>
    cases htail with
    | @done blanks hblanks =>
      have hends := ends_append_cons hblanks (.inr (.inl rfl)) rest
      have hread := hv.spells.reads blanks_nil hends
      rw [List.nil_append] at hread
      rw [read, List.cons_append, skipBlanks_append_cons hbefore rfl]
      dsimp only
      rw [if_pos rfl, List.append_assoc, List.append_assoc, nextItem_first hinner hv.spells.starts,
        List.append_assoc, List.singleton_append]
      show Except.bind (readRows (v ++ (blanks ++ closeList :: rest))) _ = _
      rw [hread]
      show Except.bind (endList (blanks ++ closeList :: rest)) _ = _
      rw [endList_close hblanks]
      rfl

/-- A text that holds rows is read as the pattern of their sets. -/
theorem ofJson_of_holds (h : Holds w rows) (hbefore : Blanks before) (hbehind : Blanks behind) :
    ofJson (before ++ (w ++ behind)) = .ok (ofLists rows) := by
  refine toOption_eq_some_iff.1 (toOption_document hbehind ?_)
  cases h with
  | object h hone hv => exact read_object h hone hv hbefore
  | list h => rw [read_list h hbefore]; rfl

/-! ### Written patterns -/

theorem saysRows_written (h : P.Writable) (l : Layout) :
    SaysRows (l.octets (.list (P.rows.map fun columns => .list (columns.toList.map .index))))
      (P.rows.map Columns.toList) := by
  refine l.enclosed_list ?_
  rw [List.forall₂_map_left_iff, List.forall₂_map_right_iff, List.forall₂_same]
  intro columns hcolumns
  refine l.inner.enclosed_list ?_
  rw [List.forall₂_map_left_iff, List.forall₂_same]
  intro c hc
  rw [Layout.octets_index]
  exact saysIndex_toDigits (h columns hcolumns c hc)

/-- What is written of a pattern holds its rows. -/
theorem holds_written (h : P.Writable) (l : Layout) :
    Holds (l.octets P.toJson) (P.rows.map Columns.toList) := by
  have hkey : IsBare "rows" := by decide
  have hrows := saysRows_written h l.inner
  have hmember := l.inner.member_memberOctets hkey hrows.isValue
  refine .object (l.enclosed_object (.cons hmember .nil)) ?_ hrows
  rw [valuesOf_cons_of_eq]
  rfl

theorem ofJson_octets (h : P.Writable) (l : Layout) : ofJson (l.octets P.toJson) = .ok P := by
  have hread := ofJson_of_holds (holds_written h l) blanks_nil blanks_nil
  rwa [List.nil_append, List.append_nil, ofLists_toList] at hread

theorem ofJson_pretty (h : P.Writable) :
    ofJson (P.toJson.pretty 0 ++ "\n").toUTF8.toList = .ok P := by
  have hline : Blanks "\n".toUTF8.toList := by
    rw [octets_word (by decide)]
    decide
  have hread := ofJson_of_holds (holds_written h (.indented 0)) blanks_nil hline
  rw [Text.toUTF8_append]
  rwa [List.nil_append, ofLists_toList] at hread

/-- What a text is read as that holds rows: the pattern of their sets, whose own texts hold ascending
rows and are read as it again. -/
structure Normalizes (rows : List (List Nat)) (Q : Pattern) : Prop where
  size : Q.size = rows.length
  contains : ∀ i j, Q.contains i j = true ↔ ∃ row, rows[i]? = some row ∧ j ∈ row
  ascending : ∀ row ∈ Q.rows.map Columns.toList, row.Pairwise (· < ·)
  written : ∀ l : Layout, Holds (l.octets Q.toJson) (Q.rows.map Columns.toList)
  inverse : ∀ l : Layout, ofJson (l.octets Q.toJson) = .ok Q
  /-- Rows that ascend already stay as they are. -/
  stable : (∀ row ∈ rows, row.Pairwise (· < ·)) → Q.rows.map Columns.toList = rows

theorem normalizes_ofLists (h : ∀ row ∈ rows, ∀ c ∈ row, c < indexLimit) :
    Normalizes rows (ofLists rows) := by
  have hwritable : (ofLists rows).Writable := by
    intro columns hcolumns c hc
    obtain ⟨row, hrow, rfl⟩ := List.mem_map.1 hcolumns
    exact h row hrow c (Columns.mem_ofList.1 hc)
  constructor
  case size => exact size_ofLists rows
  case contains => exact fun i j => contains_ofLists
  case ascending =>
    intro row hrow
    obtain ⟨columns, -, rfl⟩ := List.mem_map.1 hrow
    exact columns.ascending
  case written => exact holds_written hwritable
  case inverse => exact ofJson_octets hwritable
  case stable =>
    intro hascending
    rw [ofLists, List.map_map]
    exact (List.map_congr_left fun row hrow => Columns.toList_ofList (hascending row hrow)).trans
      (List.map_id rows)

theorem Holds.below (h : Holds w rows) : ∀ row ∈ rows, ∀ c ∈ row, c < indexLimit := by
  cases h with
  | object _ _ hv => exact hv.below
  | list h => exact (List.forall_mem_cons.1 (h.forall_mem SaysRows.below)).1

/-- Patterns and their texts: each written form of a pattern is read as this pattern, so that no two
patterns have a text in common; and every text that holds rows, whatever the order of their columns
and however often they are repeated, is read as the pattern of the sets of its rows. -/
theorem json_round_trip :
    (∀ (P : Pattern) (l : Layout), P.Writable → ofJson (l.octets P.toJson) = .ok P) ∧
      (∀ (P Q : Pattern) (l l' : Layout), P.Writable → Q.Writable →
        l.write P.toJson = l'.write Q.toJson → P = Q) ∧
      ∀ {w before behind : Octets} {rows : List (List Nat)}, Holds w rows → Blanks before →
        Blanks behind → ∃ Q, ofJson (before ++ (w ++ behind)) = .ok Q ∧ Normalizes rows Q := by
  refine ⟨fun P l h => ofJson_octets h l, fun P Q l l' hP hQ heq => ?_, ?_⟩
  · have hread := ofJson_octets hP l
    rw [Layout.octets, heq] at hread
    exact Except.ok.inj (hread.symm.trans (ofJson_octets hQ l'))
  · intro w before behind rows h hbefore hbehind
    exact ⟨ofLists rows, ofJson_of_holds h hbefore hbehind, normalizes_ofLists h.below⟩

/-- A row that repeats a column, an empty row and the greatest index, behind a key that is passed
over; and a pattern in its compact form. -/
theorem json_round_trip_unordered :
    let rows := [[5, 2, 5], [], [18446744073709551615]]
    let P : Pattern := .ofLists rows
    P.Writable ∧ ofJson (Layout.compact.octets P.toJson) = .ok P ∧
      ∃ Q, ofJson (word "\x7b\"a\":[null],\"rows\":[[5,2, 5],[],[18446744073709551615]]\x7d") = .ok Q ∧
        Normalizes rows Q := by
  intro rows P
  have hspace : Blanks [0x20] := by decide
  have htwo : SaysIndex (word "2") 2 := ⟨by decide, by decide, by decide, by decide⟩
  have hfive : SaysIndex (word "5") 5 := ⟨by decide, by decide, by decide, by decide⟩
  have hgreatest : SaysIndex (word "18446744073709551615") 18446744073709551615 :=
    ⟨by decide, by decide, by decide, by decide⟩
  have hrows : SaysRows _ rows :=
    .items blanks_nil (.items blanks_nil hfive (.more blanks_nil blanks_nil htwo
      (.more blanks_nil hspace hfive (.done blanks_nil)))) (.more blanks_nil blanks_nil
        (.empty blanks_nil) (.more blanks_nil blanks_nil
          (.items blanks_nil hgreatest (.done blanks_nil)) (.done blanks_nil)))
  have hitems : Enclosed (fun w (_ : Unit) => IsValue w) openList closeList _ [()] :=
    .items blanks_nil IsValue.null (.done blanks_nil)
  have hother : Member SpellsString IsValue _ (word "a", _) :=
    .mk (spellsString_plain (by decide)) blanks_nil blanks_nil (.list hitems)
  have hkey : Member SpellsString IsValue _ (word "rows", _) :=
    .mk (spellsString_plain (by decide)) blanks_nil blanks_nil hrows.isValue
  have hholds := Holds.object (.items blanks_nil hother (.more blanks_nil blanks_nil hkey
    (.done blanks_nil))) rfl hrows
  have hwritable : P.Writable := by decide
  have hread := json_round_trip.2.2 hholds blanks_nil blanks_nil
  refine ⟨hwritable, json_round_trip.1 P .compact hwritable, ?_⟩
  -- the text is the one that was put together
  refine Eq.mpr (congrArg (fun s => ∃ Q, ofJson s = .ok Q ∧ Normalizes rows Q) ?_) hread
  decide

end Pattern
end CowArrays
