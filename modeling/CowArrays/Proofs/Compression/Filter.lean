import CowArrays.Proofs.Compression.Patterns

/-!
The documented filter, as a property of what compression comes to.
-/

namespace CowArrays

variable {p : Precision} {P : Pattern} {g : Grid p} {t : Scalar p}

/-- What compressing a pattern against a grid has to come to. -/
structure Filters (P : Pattern) (g : Grid p) (t : Scalar p) (result : Attempt Pattern) : Prop where
  /-- First of all, the threshold is refused if it is a NaN or negative. -/
  threshold : result = .error (.refused .invalidThreshold) ↔ t.isNaN = true ∨ t.lt .zero = true
  /-- Then the shape is, if the rows are not as many as those of the grid. -/
  shape : ∀ expected found, result = .error (.refused (.shapeMismatch expected found)) ↔
    Scalar.zero.le t = true ∧ P.size ≠ g.rows ∧ expected = (P.size, g.cols) ∧ found = g.shape
  /-- Then it is the first row with a column outside the grid that decides, by the least of them. -/
  column : ∀ axis c bound, result = .error (.refused (.indexOutOfRange axis c bound)) ↔
    (Scalar.zero.le t = true ∧ P.size = g.rows) ∧ axis = .column ∧ bound = g.cols ∧
      P.FirstOutside g.cols c
  /-- Otherwise there is a pattern. -/
  succeeds : Scalar.zero.le t = true → P.size = g.rows → P.Within g.cols → ∃ Q, result = .ok Q
  /-- It has as many rows, and the positions whose entries exceed the threshold in magnitude. -/
  kept : ∀ Q, result = .ok Q ↔ (Scalar.zero.le t = true ∧ P.size = g.rows ∧ P.Within g.cols) ∧
    Q.size = P.size ∧ ∀ i j, Q.contains i j = true ↔ P.contains i j = true ∧
      ∃ x, g.read? i j = some x ∧ t.lt x.magnitude = true
  /-- The comparison is strict, and neither zeros nor NaNs stay. -/
  dropped : ∀ Q i j x, result = .ok Q → g.read? i j = some x →
    x.isNaN = true ∨ x.same .zero = true ∨ x.magnitude.same t = true → Q.contains i j = false
  /-- Nothing but checks fail: no entry is read where there is none. -/
  refused : ∀ failure, result = .error failure → ∃ reason, failure = .refused reason

theorem compress_eq_error {failure : Failure} :
    compress P g t = .error failure ↔ checkCompression P g t = .error failure ∨
      checkCompression P g t = .ok () ∧ compressRows P g t = .error failure := by
  rw [compress_eq]
  cases checkCompression P g t with
  | error failure' => simp
  | ok _ => simpa using Attempt.bind_eq_error_of_ok fun rows => ⟨(⟨rows⟩ : Pattern), rfl⟩

/-- What compression is refused for: the threshold, then the shape, then a column. -/
inductive Refuses (P : Pattern) (g : Grid p) (t : Scalar p) : Failure → Prop
  | threshold (ht : ¬Scalar.zero.le t = true) : Refuses P g t (.refused .invalidThreshold)
  | shape (ht : Scalar.zero.le t = true) (hsize : P.size ≠ g.rows) :
      Refuses P g t (.refused (.shapeMismatch (P.size, g.cols) g.shape))
  | column {c : Nat} (ht : Scalar.zero.le t = true) (hsize : P.size = g.rows)
      (first : P.FirstOutside g.cols c) :
      Refuses P g t (.refused (.indexOutOfRange .column c g.cols))

theorem compress_eq_error_iff {failure : Failure} :
    compress P g t = .error failure ↔ Refuses P g t failure := by
  rw [compress_eq_error, checkCompression_eq_error, checkCompression_eq_ok]
  constructor
  · rintro ((⟨ht, rfl⟩ | ⟨ht, hsize, rfl⟩) | ⟨⟨ht, hsize⟩, hrows⟩)
    · exact .threshold ht
    · exact .shape ht hsize
    · obtain ⟨c, first, rfl⟩ := (compressRows_eq_error hsize).1 hrows
      exact .column ht hsize first
  · intro h
    cases h with
    | threshold ht => exact .inl (.inl ⟨ht, rfl⟩)
    | shape ht hsize => exact .inl (.inr ⟨ht, hsize, rfl⟩)
    | column ht hsize first =>
      exact .inr ⟨⟨ht, hsize⟩, (compressRows_eq_error hsize).2 ⟨_, first, rfl⟩⟩

theorem compress_eq_ok {Q : Pattern} :
    compress P g t = .ok Q ↔ checkCompression P g t = .ok () ∧ compressRows P g t = .ok Q.rows := by
  rw [compress_eq, Attempt.seq_eq_ok]
  refine and_congr_right fun _ => ?_
  constructor
  · intro h
    obtain ⟨rows, hrows, heq⟩ := Attempt.bind_eq_ok.1 h
    obtain rfl := Except.ok.inj heq
    exact hrows
  · intro h
    rw [h]
    rfl

theorem compressRows_of_within (hsize : P.size = g.rows) (hwithin : P.Within g.cols) :
    ∃ rows, compressRows P g t = .ok rows := by
  cases h : compressRows P g t with
  | ok rows => exact ⟨rows, rfl⟩
  | error failure =>
    obtain ⟨c, ⟨i, hc, hout, -⟩, -⟩ := (compressRows_eq_error hsize).1 h
    have := hwithin i c hc
    omega

theorem compress_eq_ok_iff {Q : Pattern} : compress P g t = .ok Q ↔
    (Scalar.zero.le t = true ∧ P.size = g.rows ∧ P.Within g.cols) ∧ Q.size = P.size ∧
      ∀ i j, Q.contains i j = true ↔ P.contains i j = true ∧ g.Exceeds t i j := by
  rw [compress_eq_ok, checkCompression_eq_ok]
  constructor
  · rintro ⟨⟨ht, hsize⟩, hrows⟩
    have ⟨hwithin, hQ⟩ := compressRows_eq_ok hsize hrows
    exact ⟨⟨ht, hsize, hwithin⟩, hQ⟩
  · -- there is some pattern, and one with the same positions is the same
    rintro ⟨⟨ht, hsize, hwithin⟩, hQsize, hQ⟩
    obtain ⟨rows, hrows⟩ := compressRows_of_within (t := t) hsize hwithin
    have ⟨_, hrsize, hr⟩ := compressRows_eq_ok hsize hrows
    have heq : (⟨rows⟩ : Pattern) = Q :=
      Pattern.eq_of_contains (hrsize.trans hQsize.symm) fun i j => (hr i j).trans (hQ i j).symm
    refine ⟨⟨ht, hsize⟩, ?_⟩
    rw [← heq]
    exact hrows

/-- Nothing is refused that has a row for each row of the grid and all its columns inside. -/
theorem compress_ok (ht : Scalar.zero.le t = true) (hsize : P.size = g.rows)
    (hwithin : P.Within g.cols) : ∃ Q, compress P g t = .ok Q := by
  obtain ⟨rows, hrows⟩ := compressRows_of_within (t := t) hsize hwithin
  exact ⟨⟨rows⟩, compress_eq_ok.2 ⟨checkCompression_eq_ok.2 ⟨ht, hsize⟩, hrows⟩⟩

/-- Of a grid, compression takes the shape and which entries of the pattern exceed the threshold. -/
theorem compress_congr {g' : Grid p} (hshape : g'.shape = g.shape)
    (h : ∀ i j, P.contains i j = true → (g'.Exceeds t i j ↔ g.Exceeds t i j)) :
    compress P g' t = compress P g t := by
  have ⟨hrows, hcols⟩ := Grid.shape_eq_iff.1 hshape
  cases hresult : compress P g t with
  | ok Q =>
    obtain ⟨hchecked, hsize, hkept⟩ := compress_eq_ok_iff.1 hresult
    refine compress_eq_ok_iff.2 ⟨by rwa [hrows, hcols], hsize, fun i j => ?_⟩
    rw [hkept]
    exact and_congr_right fun hc => (h i j hc).symm
  | error failure =>
    rw [compress_eq_error_iff] at hresult ⊢
    cases hresult with
    | threshold ht => exact .threshold ht
    | shape ht hsize =>
      rw [← hcols, ← hshape]
      exact .shape ht (hrows ▸ hsize)
    | column ht hsize first =>
      rw [← hcols] at first ⊢
      exact .column ht (hsize.trans hrows.symm) first

/-- Compression is the documented filter. -/
theorem compress_filters (P : Pattern) (g : Grid p) (t : Scalar p) :
    Filters P g t (compress P g t) := by
  constructor
  case threshold =>
    rw [compress_eq_error_iff, ← Scalar.not_zero_le_iff]
    constructor
    · intro h
      cases h with
      | threshold ht => exact ht
    · exact .threshold
  case shape =>
    intro expected found
    rw [compress_eq_error_iff]
    constructor
    · intro h
      cases h with
      | shape ht hsize => exact ⟨ht, hsize, rfl, rfl⟩
    · rintro ⟨ht, hsize, rfl, rfl⟩
      exact .shape ht hsize
  case column =>
    intro axis c bound
    rw [compress_eq_error_iff]
    constructor
    · intro h
      cases h with
      | column ht hsize first => exact ⟨⟨ht, hsize⟩, rfl, rfl, first⟩
    · rintro ⟨⟨ht, hsize⟩, rfl, rfl, first⟩
      exact .column ht hsize first
  case succeeds => exact compress_ok
  case kept =>
    intro Q
    exact compress_eq_ok_iff
  case dropped =>
    intro Q i j x hQ hx hsmall
    have ⟨⟨ht, _, _⟩, _, hmem⟩ := compress_eq_ok_iff.1 hQ
    have hnot : ¬ t.lt x.magnitude = true := by
      rcases hsmall with hnan | hzero | hsame
      · exact Scalar.not_lt_magnitude_of_isNaN hnan
      · exact Scalar.not_lt_magnitude_of_zero ht hzero
      · exact Scalar.not_lt_of_same hsame
    rw [Bool.eq_false_iff]
    intro hc
    obtain ⟨-, y, hy, hlt⟩ := (hmem i j).1 hc
    rw [hx] at hy
    exact hnot (Option.some.inj hy ▸ hlt)
  case refused =>
    intro failure h
    cases compress_eq_error_iff.1 h with
    | threshold ht => exact ⟨_, rfl⟩
    | shape ht hsize => exact ⟨_, rfl⟩
    | column ht hsize first => exact ⟨_, rfl⟩

end CowArrays
