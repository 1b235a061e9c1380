import CowArrays.Proofs.Command.Stages
import CowArrays.Proofs.Triplet.Grammar

/-!
The sizes that a run works out where none are given. They have room for all indices, and are the
least ones that do. Where one index is the largest there is, no size has room for it, and the run is
broken off in place of stopping at an entry outside.
-/

namespace CowArrays.Command

/-! ### Covering sizes -/

section Covering

variable {is : List Nat} {i n : Nat}

theorem foldl_max_le_iff {a : Nat} : is.foldl max a ≤ n ↔ a ≤ n ∧ ∀ i ∈ is, i ≤ n := by
  induction is generalizing a with
  | nil => simp
  | cons i is ih =>
    rw [List.foldl_cons, ih, Nat.max_le, List.forall_mem_cons, and_assoc]

/-- A size that has room for some indices, and the least one. -/
structure LeastSize (is : List Nat) (n : Nat) : Prop where
  covers : ∀ i ∈ is, i < n
  least : ∀ m, (∀ i ∈ is, i < m) → n ≤ m

theorem LeastSize.unique {m : Nat} (hn : LeastSize is n) (hm : LeastSize is m) : n = m :=
  Nat.le_antisymm (hn.least m hm.covers) (hm.least n hn.covers)

theorem leastSize_foldl_max (is : List Nat) : LeastSize is ((is.map (· + 1)).foldl max 0) := by
  have hiff (m : Nat) : (is.map (· + 1)).foldl max 0 ≤ m ↔ ∀ i ∈ is, i < m := by
    rw [foldl_max_le_iff, List.forall_mem_map]
    exact and_iff_right (Nat.zero_le m)
  exact ⟨(hiff _).1 (Nat.le_refl _), fun m => (hiff m).2⟩

theorem mapM_indexSucc_of_room (h : ∀ i ∈ is, i + 1 < indexLimit) :
    is.mapM indexSucc = .ok (is.map (· + 1)) := by
  induction is with
  | nil => rfl
  | cons i is ih =>
    obtain ⟨hi, hrest⟩ := List.forall_mem_cons.1 h
    rw [List.mapM_cons, ih hrest, indexSucc, if_pos hi]
    rfl

/-- The first index without a successor breaks off. -/
theorem mapM_indexSucc_of_mem (hi : i ∈ is) (h : ¬i + 1 < indexLimit) :
    is.mapM indexSucc = .error .overflow := by
  induction is with
  | nil => cases hi
  | cons j is ih =>
    rw [List.mapM_cons, indexSucc]
    split
    · rename_i hj
      rcases List.mem_cons.1 hi with rfl | hi
      · exact absurd hj h
      · rw [ih hi]
        rfl
    · rfl

theorem coveringSize_of_room (h : ∀ i ∈ is, i + 1 < indexLimit) :
    ∃ n, coveringSize is = .ok n ∧ LeastSize is n :=
  ⟨_, by rw [coveringSize, mapM_indexSucc_of_room h]; rfl, leastSize_foldl_max is⟩

theorem coveringSize_of_mem (hi : i ∈ is) (h : ¬i + 1 < indexLimit) :
    coveringSize is = .error .overflow := by
  rw [coveringSize, mapM_indexSucc_of_mem hi h]
  rfl

/-- The least size is worked out, or there is an index that breaks off. -/
theorem coveringSize_cases (is : List Nat) :
    (∃ n, coveringSize is = .ok n ∧ LeastSize is n) ∨ coveringSize is = .error .overflow := by
  by_cases h : ∀ i ∈ is, i + 1 < indexLimit
  · exact .inl (coveringSize_of_room h)
  · obtain ⟨i, hi, hno⟩ : ∃ i ∈ is, ¬i + 1 < indexLimit := by simpa using h
    exact .inr (coveringSize_of_mem hi hno)

theorem leastSize_of_coveringSize (h : coveringSize is = .ok n) : LeastSize is n := by
  rcases coveringSize_cases is with ⟨m, hm, hleast⟩ | hno
  · exact Except.ok.inj (hm.symm.trans h) ▸ hleast
  · cases hno.symm.trans h

variable {α : Type} {index : α → Nat} {xs : List α}

/-- Where no size is given, there is one unless an index is the largest there is. -/
theorem exists_sizeFor_iff {given : Option Nat} (hgiven : given = none)
    (h : ∀ x ∈ xs, index x < indexLimit) :
    (∃ n, sizeFor given (xs.map index) = .ok n) ↔ ∀ x ∈ xs, index x ≠ indexLimit - 1 := by
  subst hgiven
  have hlast : indexLimit - 1 + 1 = indexLimit := by decide
  constructor
  · rintro ⟨n, hn⟩ x hx heq
    have hno : ¬index x + 1 < indexLimit := by omega
    rw [sizeFor, coveringSize_of_mem (List.mem_map_of_mem hx) hno] at hn
    cases hn
  · intro hne
    have hroom : ∀ i ∈ xs.map index, i + 1 < indexLimit := List.forall_mem_map.2 fun x hx => by
      have hlt := h x hx
      have hnot := hne x hx
      omega
    obtain ⟨n, hn, -⟩ := coveringSize_of_room hroom
    exact ⟨n, hn⟩

end Covering

/-! ### Sizes of a run -/

theorem exists_hasSizes_iff {o : Options} {ts : List Triplet} :
    (∃ rows cols, o.HasSizes ts rows cols) ↔
      (∃ n, sizeFor o.rows (ts.map Triplet.row) = .ok n) ∧
        ∃ n, sizeFor o.cols (ts.map Triplet.col) = .ok n :=
  ⟨fun ⟨rows, cols, h⟩ => ⟨⟨rows, h.rows⟩, ⟨cols, h.cols⟩⟩,
    fun ⟨⟨rows, hr⟩, ⟨cols, hc⟩⟩ => ⟨rows, cols, hr, hc⟩⟩

/-- What comes of the sizes that a run works out by itself for the triplets of a text. -/
structure DefaultSizes (o : Options) (text : Octets) (ts : List Triplet) : Prop where
  /-- There is one for an axis unless an index is the largest there is. -/
  rows : (∃ n, sizeFor o.rows (ts.map Triplet.row) = .ok n) ↔ ∀ t ∈ ts, t.row ≠ indexLimit - 1
  cols : (∃ n, sizeFor o.cols (ts.map Triplet.col) = .ok n) ↔ ∀ t ∈ ts, t.col ≠ indexLimit - 1
  /-- It has room for all indices, and is not larger than it has to be. -/
  leastRows : ∀ n, sizeFor o.rows (ts.map Triplet.row) = .ok n → LeastSize (ts.map Triplet.row) n
  leastCols : ∀ n, sizeFor o.cols (ts.map Triplet.col) = .ok n → LeastSize (ts.map Triplet.col) n
  empty : ts = [] → o.HasSizes ts 0 0
  /-- So no run stops at an entry outside. -/
  inside : ∀ schedule i j rows cols, process schedule o text ≠ .error (.outside i j rows cols)
  /-- A run is broken off where one index is the largest, and only there. It prints nothing then. -/
  overflow : ∀ schedule, process schedule o text = .error .overflow ↔
    ∃ t ∈ ts, t.row = indexLimit - 1 ∨ t.col = indexLimit - 1
  brokenOff : ∀ schedule, (∃ t ∈ ts, t.row = indexLimit - 1 ∨ t.col = indexLimit - 1) →
    execute schedule o (some text) = ⟨101, "", Stopped.overflow.text ++ "\n"⟩

section Defaults

variable {o : Options} {text : Octets} {ts : List Triplet} (hread : Triplet.readAll text = .ok ts)
  (hrows : o.rows = none) (hcols : o.cols = none)

include hrows hcols

/-- Without given sizes a run has the least ones, or is broken off. -/
theorem hasSizes_or_overflow (ts : List Triplet) :
    (∃ rows cols, o.HasSizes ts rows cols ∧ AllInside rows cols ts) ∨
      sizeFor o.rows (ts.map Triplet.row) = .error .overflow ∨
      (∃ rows, sizeFor o.rows (ts.map Triplet.row) = .ok rows) ∧
        sizeFor o.cols (ts.map Triplet.col) = .error .overflow := by
  rw [hrows, hcols]
  rcases coveringSize_cases (ts.map Triplet.row) with ⟨rows, hr, leastRows⟩ | hr
  · rcases coveringSize_cases (ts.map Triplet.col) with ⟨cols, hc, leastCols⟩ | hc
    · have inside : AllInside rows cols ts := fun t ht =>
        ⟨leastRows.covers _ (List.mem_map_of_mem ht), leastCols.covers _ (List.mem_map_of_mem ht)⟩
      exact .inl ⟨rows, cols, ⟨by rw [hrows]; exact hr, by rw [hcols]; exact hc⟩, inside⟩
    · exact .inr (.inr ⟨⟨rows, hr⟩, hc⟩)
  · exact .inr (.inl hr)

include hread

/-- Then it is only reading and compression that a run reports, unless it is broken off. -/
theorem process_default (schedule : Schedule) :
    (∃ rows cols, o.HasSizes ts rows cols ∧
      ((∃ r, process schedule o text = .ok r) ∨
        ∃ failure, process schedule o text = .error (.failed failure))) ∨
      (¬∃ rows cols, o.HasSizes ts rows cols) ∧ process schedule o text = .error .overflow := by
  rcases hasSizes_or_overflow hrows hcols ts with ⟨rows, cols, hsizes, inside⟩ | hno
  · obtain ⟨c, -, hprocess⟩ := process_of_inside schedule hread hsizes inside
    refine .inl ⟨rows, cols, hsizes, ?_⟩
    rw [hprocess]
    split
    · exact .inl ⟨_, rfl⟩
    · exact .inr ⟨_, rfl⟩
  · refine .inr ⟨fun ⟨rows, cols, hsizes⟩ => ?_, process_of_unsized schedule hread hno⟩
    rcases hno with hr | ⟨-, hc⟩
    · cases hr.symm.trans hsizes.rows
    · cases hc.symm.trans hsizes.cols

/-- Such a run is broken off where an axis has no size, and only there. -/
theorem process_eq_overflow_iff (schedule : Schedule) :
    process schedule o text = .error .overflow ↔ ¬∃ rows cols, o.HasSizes ts rows cols := by
  rcases process_default hread hrows hcols schedule with
    ⟨rows, cols, h, ⟨r, hr⟩ | ⟨failure, hr⟩⟩ | ⟨hno, hr⟩
  · exact iff_of_false (by rw [hr]; nofun) (not_not_intro ⟨rows, cols, h⟩)
  · exact iff_of_false (by rw [hr]; nofun) (not_not_intro ⟨rows, cols, h⟩)
  · exact iff_of_true hr hno

end Defaults

theorem default_sizes {o : Options} {text : Octets} {ts : List Triplet}
    (hread : Triplet.readAll text = .ok ts) (hrows : o.rows = none) (hcols : o.cols = none) :
    DefaultSizes o text ts := by
  have hlt := Triplet.lt_of_readAll hread
  have hrow : (∃ n, sizeFor o.rows (ts.map Triplet.row) = .ok n) ↔
      ∀ t ∈ ts, t.row ≠ indexLimit - 1 := exists_sizeFor_iff hrows fun t ht => (hlt t ht).1
  have hcol : (∃ n, sizeFor o.cols (ts.map Triplet.col) = .ok n) ↔
      ∀ t ∈ ts, t.col ≠ indexLimit - 1 := exists_sizeFor_iff hcols fun t ht => (hlt t ht).2
  have hoverflow (schedule : Schedule) : process schedule o text = .error .overflow ↔
      ∃ t ∈ ts, t.row = indexLimit - 1 ∨ t.col = indexLimit - 1 := by
    have hsizes : (∃ rows cols, o.HasSizes ts rows cols) ↔
        ∀ t ∈ ts, t.row ≠ indexLimit - 1 ∧ t.col ≠ indexLimit - 1 := by
      rw [exists_hasSizes_iff, hrow, hcol, forall₂_and]
    rw [process_eq_overflow_iff hread hrows hcols, hsizes]
    simp only [not_forall, not_and_or, ne_eq, not_not, exists_prop]
  constructor
  case rows => exact hrow
  case cols => exact hcol
  case leastRows =>
    rw [hrows]
    exact fun n => leastSize_of_coveringSize
  case leastCols =>
    rw [hcols]
    exact fun n => leastSize_of_coveringSize
  case empty =>
    rintro rfl
    exact ⟨by rw [hrows]; rfl, by rw [hcols]; rfl⟩
  case inside =>
    intro schedule i j rows cols hstop
    rcases process_default hread hrows hcols schedule with
      ⟨-, -, -, ⟨r, hr⟩ | ⟨failure, hr⟩⟩ | ⟨-, hr⟩
    · cases hr.symm.trans hstop
    · cases hr.symm.trans hstop
    · cases hr.symm.trans hstop
  case overflow => exact hoverflow
  case brokenOff =>
    intro schedule hlast
    rw [execute, (hoverflow schedule).2 hlast]
    rfl

/-- An entry in the last column there is. -/
def lastColumn : Octets := "0,18446744073709551615,1\n".toUTF8.toList

theorem readAll_lastColumn : Triplet.readAll lastColumn = .ok [⟨0, indexLimit - 1, .unit⟩] := by
  decide +kernel

theorem default_sizes_lastColumn :
    Triplet.readAll lastColumn = .ok [⟨0, indexLimit - 1, .unit⟩] ∧
      DefaultSizes {} lastColumn [⟨0, indexLimit - 1, .unit⟩] :=
  ⟨readAll_lastColumn, default_sizes readAll_lastColumn rfl rfl⟩

/-- No number of columns has room for this entry, and the run is broken off. -/
theorem lastColumn_overflow :
    Triplet.readAll lastColumn = .ok [⟨0, indexLimit - 1, .unit⟩] ∧
      coveringSize [indexLimit - 1] = .error .overflow ∧
        execute .inOrder {} (some lastColumn) = ⟨101, "", Stopped.overflow.text ++ "\n"⟩ := by
  refine ⟨readAll_lastColumn, rfl, ?_⟩
  rw [execute, process_of_unsized .inOrder readAll_lastColumn (.inr ⟨⟨1, rfl⟩, rfl⟩)]
  rfl

end CowArrays.Command
