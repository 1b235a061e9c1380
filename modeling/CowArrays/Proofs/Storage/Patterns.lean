import CowArrays.Pattern.Basic
import Mathlib.Data.Finset.Card

/-!
Patterns by the positions that they contain: when two of them are equal, what marking more positions
changes, and that the list of positions has each of them once, row by row.
-/

namespace CowArrays.Pattern

variable {P Q : Pattern} {i j : Nat}

theorem row_of_lt (h : i < P.size) : P.row i = .ok P.rows[i] := by
  rw [row, List.getElem?_eq_getElem h]

theorem row_eq_error (h : P.size ≤ i) : P.row i = .error (.outOfRange (.pattern i P.size)) := by
  rw [row, List.getElem?_eq_none h]

theorem contains_iff :
    P.contains i j = true ↔ ∃ columns, P.rows[i]? = some columns ∧ j ∈ columns := by
  unfold contains
  cases P.rows[i]? with
  | none => simp
  | some columns => simp [Columns.contains_iff]

theorem mem_row_iff {columns : Columns} (h : P.rows[i]? = some columns) :
    j ∈ columns ↔ P.contains i j = true := by
  simp [contains_iff, h]

theorem eq_of_contains (hsize : P.size = Q.size)
    (h : ∀ i j, P.contains i j = true ↔ Q.contains i j = true) : P = Q := by
  have hrows : P.rows = Q.rows := by
    refine List.ext_getElem hsize fun i hP hQ => Columns.eq_iff_mem.2 fun c => ?_
    have hc := h i c
    rw [contains_iff, contains_iff, List.getElem?_eq_getElem hP, List.getElem?_eq_getElem hQ] at hc
    simpa using hc
  cases P
  cases Q
  exact congrArg Pattern.mk hrows

theorem contains_eq_of_lt (h : i < P.size) (j : Nat) : P.contains i j = P.rows[i].contains j := by
  rw [contains, List.getElem?_eq_getElem h]

/-! ### New patterns -/

@[simp] theorem size_empty (rows : Nat) : (empty rows).size = rows := List.length_replicate

@[simp] theorem contains_empty (rows i j : Nat) : (empty rows).contains i j = false := by
  refine Bool.eq_false_iff.2 fun h => ?_
  obtain ⟨cs, hcs, hj⟩ := contains_iff.1 h
  have hmem := List.mem_of_getElem? hcs
  rw [(List.mem_replicate.1 hmem).2] at hj
  exact List.not_mem_nil hj

@[simp] theorem size_full (rows cols : Nat) : (full rows cols).size = rows := List.length_replicate

theorem contains_full {rows cols : Nat} :
    (full rows cols).contains i j = true ↔ i < rows ∧ j < cols := by
  simp only [contains_iff, full, List.getElem?_replicate, Option.ite_none_right_eq_some,
    Option.some.injEq]
  constructor
  · rintro ⟨cs, ⟨hi, rfl⟩, hj⟩
    exact ⟨hi, Columns.mem_below.1 hj⟩
  · rintro ⟨hi, hj⟩
    exact ⟨_, ⟨hi, rfl⟩, Columns.mem_below.2 hj⟩

@[simp] theorem size_ofLists (rows : List (List Nat)) : (ofLists rows).size = rows.length :=
  List.length_map _

theorem contains_ofLists {rows : List (List Nat)} :
    (ofLists rows).contains i j = true ↔ ∃ js, rows[i]? = some js ∧ j ∈ js := by
  simp [contains_iff, ofLists, Columns.mem_ofList]

/-! ### Marks -/

@[simp] theorem size_setRow (i : Nat) (cs : Columns) : (P.setRow i cs).size = P.size :=
  List.length_set

theorem contains_setRow (hi : i < P.size) (cs : Columns) (a b : Nat) :
    (P.setRow i cs).contains a b = if a = i then cs.contains b else P.contains a b := by
  unfold contains setRow
  by_cases ha : a = i
  · have hlt : a < P.rows.length := ha ▸ hi
    simp [ha, List.getElem?_set_self (ha ▸ hlt)]
  · simp [ha, List.getElem?_set_ne (Ne.symm ha)]

theorem contains_setRow_iff (hi : i < P.size) {cs : Columns} {new : Nat → Prop}
    (hcs : ∀ c, c ∈ cs ↔ new c ∨ c ∈ P.rows[i]) (a b : Nat) :
    (P.setRow i cs).contains a b = true ↔ (a = i ∧ new b) ∨ P.contains a b = true := by
  rw [contains_setRow hi]
  by_cases ha : a = i
  · subst ha
    rw [if_pos rfl, Columns.contains_iff, hcs, mem_row_iff (List.getElem?_eq_getElem hi)]
    simp
  · simp [ha]

/-- Marking a position marks this position and no other, and says whether it was not marked. -/
theorem insert_of_lt (hi : i < P.size) (j : Nat) :
    ∃ Q, P.insert i j = .ok (Q, !P.contains i j) ∧ Q.size = P.size ∧
      ∀ a b, Q.contains a b = true ↔ (a = i ∧ b = j) ∨ P.contains a b = true := by
  refine ⟨P.setRow i (P.rows[i].insert j), ?_, size_setRow _ _,
    contains_setRow_iff hi fun _ => Columns.mem_insert⟩
  rw [insert, row_of_lt hi, contains_eq_of_lt hi]
  rfl

/-- Marking columns of a row marks these positions and no others. -/
theorem insertAll_of_lt (hi : i < P.size) (js : List Nat) :
    ∃ Q, P.insertAll i js = .ok Q ∧ Q.size = P.size ∧
      ∀ a b, Q.contains a b = true ↔ (a = i ∧ b ∈ js) ∨ P.contains a b = true := by
  refine ⟨P.setRow i (P.rows[i].insertAll js), ?_, size_setRow _ _,
    contains_setRow_iff hi fun _ => Columns.mem_insertAll⟩
  rw [insertAll, row_of_lt hi]
  rfl

/-! ### Positions -/

theorem mem_positions : (i, j) ∈ P.positions ↔ P.contains i j = true := by
  unfold positions
  rw [contains_iff, List.mem_flatMap]
  constructor
  · rintro ⟨⟨cs, k⟩, hcs, hmem⟩
    obtain ⟨c, hc, heq⟩ := List.mem_map.1 hmem
    obtain ⟨rfl, rfl⟩ := Prod.mk.inj heq
    exact ⟨cs, List.mem_zipIdx_iff_getElem?.1 hcs, hc⟩
  · rintro ⟨cs, hcs, hj⟩
    exact ⟨(cs, i), List.mem_zipIdx_iff_getElem?.2 hcs, List.mem_map.2 ⟨j, hj, rfl⟩⟩

def Precedes (a b : Nat × Nat) : Prop := a.1 < b.1 ∨ a.1 = b.1 ∧ a.2 < b.2

theorem Precedes.asymm {a b : Nat × Nat} (h : Precedes a b) : ¬Precedes b a := by
  unfold Precedes at *
  omega

theorem Precedes.ne {a b : Nat × Nat} (h : Precedes a b) : a ≠ b := by
  rintro rfl
  exact h.asymm h

/-- The positions are listed row by row, and within a row the columns ascend. -/
theorem pairwise_positions (P : Pattern) : P.positions.Pairwise Precedes := by
  have hrows : P.rows.zipIdx.Pairwise fun a b => a.2 < b.2 := by
    refine List.pairwise_map.1 ?_
    rw [List.zipIdx_map_snd]
    exact List.pairwise_lt_range'
  refine List.pairwise_flatMap.2 ⟨fun ⟨cs, i⟩ _ => ?_, hrows.imp fun hlt ij hij ij' hij' => ?_⟩
  · exact List.pairwise_map.2 (cs.ascending.imp fun hlt => .inr ⟨rfl, hlt⟩)
  · obtain ⟨j, -, rfl⟩ := List.mem_map.1 hij
    obtain ⟨j', -, rfl⟩ := List.mem_map.1 hij'
    exact .inl hlt

theorem nodup_positions (P : Pattern) : P.positions.Nodup :=
  P.pairwise_positions.imp Precedes.ne

/-- Positions in this order that are those of a pattern are its list of them. -/
theorem positions_eq {ijs : List (Nat × Nat)} (hordered : ijs.Pairwise Precedes)
    (hmem : ∀ i j, (i, j) ∈ ijs ↔ P.contains i j = true) : P.positions = ijs := by
  have hperm : P.positions.Perm ijs := by
    refine (List.perm_ext_iff_of_nodup P.nodup_positions (hordered.imp Precedes.ne)).2 fun (i, j) => ?_
    rw [mem_positions, hmem]
  exact hperm.eq_of_pairwise (fun _ _ _ _ h h' => absurd h' h.asymm) P.pairwise_positions hordered

theorem count_eq_card {s : Finset (Nat × Nat)}
    (h : ∀ ij, ij ∈ s ↔ P.contains ij.1 ij.2 = true) : P.count = s.card := by
  have hs : s = P.positions.toFinset := by
    ext ij
    rw [h, List.mem_toFinset]
    exact mem_positions.symm
  rw [hs, List.toFinset_card_of_nodup P.nodup_positions, length_positions]

/-- One more position counts if it was not marked. -/
theorem count_of_contains (h : ∀ a b, Q.contains a b = true ↔
    (a = i ∧ b = j) ∨ P.contains a b = true) : Q.count = P.count + (!P.contains i j).toNat := by
  have hP (ij : Nat × Nat) : ij ∈ P.positions.toFinset ↔ P.contains ij.1 ij.2 = true := by
    rw [List.mem_toFinset]
    exact mem_positions
  have hQ (ij : Nat × Nat) :
      ij ∈ Insert.insert (i, j) P.positions.toFinset ↔ Q.contains ij.1 ij.2 = true := by
    rw [Finset.mem_insert, hP, h, Prod.ext_iff]
  rw [count_eq_card hQ, count_eq_card hP]
  cases hij : P.contains i j with
  | true => exact congrArg Finset.card (Finset.insert_eq_of_mem ((hP _).2 hij))
  | false => exact Finset.card_insert_of_notMem fun hmem => by simp [(hP _).1 hmem] at hij

end CowArrays.Pattern
