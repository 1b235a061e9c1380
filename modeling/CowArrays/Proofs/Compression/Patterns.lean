import CowArrays.Proofs.Compression.Rows
import CowArrays.Proofs.Scalar.Order
import CowArrays.Proofs.Storage.Patterns

/-!
Compression of a whole pattern: exactly the filter by magnitude, with the checks in a fixed order.
-/

namespace CowArrays

variable {p : Precision} {P Q : Pattern} {g : Grid p} {t : Scalar p}

namespace Pattern

def Within (P : Pattern) (cols : Nat) : Prop := ∀ i j, P.contains i j = true → j < cols

/-- The least column that is not inside, in the first row that has one. -/
def FirstOutside (P : Pattern) (cols c : Nat) : Prop :=
  ∃ i, P.contains i c = true ∧ cols ≤ c ∧ (∀ j, P.contains i j = true → cols ≤ j → c ≤ j) ∧
    ∀ k < i, ∀ j, P.contains k j = true → j < cols

end Pattern

/-! ### Checks -/

theorem checkThreshold_eq_ok : checkThreshold t = .ok () ↔ Scalar.zero.le t = true := by
  unfold checkThreshold
  split <;> simp_all

theorem checkCompression_eq_ok :
    checkCompression P g t = .ok () ↔ Scalar.zero.le t = true ∧ P.size = g.rows := by
  rw [checkCompression, Attempt.seq_eq_ok, checkThreshold_eq_ok]
  refine and_congr_right fun _ => ?_
  split <;> simp_all

theorem checkCompression_eq_error {failure : Failure} :
    checkCompression P g t = .error failure ↔
      (¬ Scalar.zero.le t = true ∧ failure = .refused .invalidThreshold) ∨
        Scalar.zero.le t = true ∧ P.size ≠ g.rows ∧
          failure = .refused (.shapeMismatch (P.size, g.cols) g.shape) := by
  unfold checkCompression checkThreshold
  by_cases ht : Scalar.zero.le t = true
  · rw [if_pos ht]
    by_cases hsize : P.size = g.rows
    · simp [ht, hsize]
    · simp [ht, hsize, eq_comm]
  · rw [if_neg ht]
    simp [ht, eq_comm]

/-! ### Rows -/

def compressRows (P : Pattern) (g : Grid p) (t : Scalar p) : Attempt (List Columns) :=
  P.rows.zipIdx.mapM fun (columns, i) => compressRow i columns g t

theorem compress_eq : compress P g t = do
    checkCompression P g t
    return ⟨← compressRows P g t⟩ := rfl

theorem getElem?_zipIdx {i : Nat} {x : Columns × Nat} :
    P.rows.zipIdx[i]? = some x ↔ P.rows[i]? = some x.1 ∧ x.2 = i := by
  rw [List.getElem?_zipIdx, Option.map_eq_some_iff]
  constructor
  · rintro ⟨columns, hcolumns, rfl⟩
    exact ⟨hcolumns, Nat.zero_add i⟩
  · rintro ⟨hcolumns, rfl⟩
    exact ⟨x.1, hcolumns, by simp⟩

theorem lt_rows (hsize : P.size = g.rows) {i : Nat} {columns : Columns}
    (h : P.rows[i]? = some columns) : i < g.rows :=
  hsize ▸ (List.getElem?_eq_some_iff.1 h).1

theorem compressRows_eq_error (hsize : P.size = g.rows) {failure : Failure} :
    compressRows P g t = .error failure ↔ ∃ c, P.FirstOutside g.cols c ∧
      failure = .refused (.indexOutOfRange .column c g.cols) := by
  rw [compressRows, Attempt.mapM_eq_error]
  constructor
  · rintro ⟨i, ⟨columns, i'⟩, hrow, hfail, hbefore⟩
    obtain ⟨hcolumns, rfl⟩ := getElem?_zipIdx.1 hrow
    have hi := lt_rows hsize hcolumns
    obtain ⟨c, hc, hout, hleast, rfl⟩ := (compressRow_eq_error hi).1 hfail
    have hmem (j : Nat) := Pattern.mem_row_iff (j := j) hcolumns
    -- the rows before it succeeded, which they only do inside the grid
    refine ⟨c, ⟨i', (hmem c).1 hc, hout, fun j hj => hleast j ((hmem j).2 hj), ?_⟩, rfl⟩
    intro k hk j hj
    obtain ⟨columns', hcolumns', hj'⟩ := Pattern.contains_iff.1 hj
    obtain ⟨kept, hkept⟩ := hbefore k hk (columns', k) (getElem?_zipIdx.2 ⟨hcolumns', rfl⟩)
    exact (compressRow_eq_ok (lt_rows hsize hcolumns') hkept).1 j hj'
  · rintro ⟨c, ⟨i, hc, hout, hleast, hbefore⟩, rfl⟩
    obtain ⟨columns, hcolumns, hmem⟩ := Pattern.contains_iff.1 hc
    have hrow (j : Nat) := Pattern.mem_row_iff (j := j) hcolumns
    refine ⟨i, (columns, i), getElem?_zipIdx.2 ⟨hcolumns, rfl⟩, ?_, fun k hk x hx => ?_⟩
    · exact (compressRow_eq_error (lt_rows hsize hcolumns)).2
        ⟨c, hmem, hout, fun d hd => hleast d ((hrow d).1 hd), rfl⟩
    · obtain ⟨hx, hxk⟩ := getElem?_zipIdx.1 hx
      have hi : x.2 < g.rows := hxk ▸ lt_rows hsize hx
      exact compressRow_ok hi fun d hd => hbefore k hk d ((Pattern.mem_row_iff hx).1 hd)

theorem compressRows_eq_ok (hsize : P.size = g.rows) {rows : List Columns}
    (h : compressRows P g t = .ok rows) : P.Within g.cols ∧ (⟨rows⟩ : Pattern).size = P.size ∧
      ∀ i j, (⟨rows⟩ : Pattern).contains i j = true ↔
        P.contains i j = true ∧ g.Exceeds t i j := by
  have ⟨hlength, hall⟩ := Attempt.mapM_eq_ok.1 h
  rw [List.length_zipIdx] at hlength
  have hrow (i : Nat) (columns : Columns) (hcolumns : P.rows[i]? = some columns) :
      ∃ kept, rows[i]? = some kept ∧ compressRow i columns g t = .ok kept :=
    hall i (columns, i) (getElem?_zipIdx.2 ⟨hcolumns, rfl⟩)
  refine ⟨fun i j hj => ?_, hlength, fun i j => ?_⟩
  · obtain ⟨columns, hcolumns, hmem⟩ := Pattern.contains_iff.1 hj
    obtain ⟨kept, -, hkept⟩ := hrow i columns hcolumns
    exact (compressRow_eq_ok (lt_rows hsize hcolumns) hkept).1 j hmem
  · cases hcolumns : P.rows[i]? with
    | none =>
      have hnone : rows[i]? = none := by
        rw [List.getElem?_eq_none_iff] at hcolumns ⊢
        omega
      simp [Pattern.contains_iff, hcolumns, hnone]
    | some columns =>
      obtain ⟨kept, hget, hkept⟩ := hrow i columns hcolumns
      rw [← Pattern.mem_row_iff (P := ⟨rows⟩) hget, ← Pattern.mem_row_iff hcolumns]
      exact (compressRow_eq_ok (lt_rows hsize hcolumns) hkept).2 j

end CowArrays
