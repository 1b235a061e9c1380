import CowArrays.Decimal.Literal
import CowArrays.Proofs.Compression.Schedules
import CowArrays.Proofs.Scalar.Narrowing

/-!
Which thresholds of settings are refused. The check is made of the threshold as it is narrowed to
the elements of the grid: there a negative one so small that it vanishes is a zero, and passes.
-/

namespace CowArrays

variable {p : Precision} {P : Pattern} {g : Grid p} {t : Scalar p}

/-! ### Narrowed thresholds -/

/-- What thresholds may not be less than, with elements of a format: zero where nothing is rounded
away, and otherwise half the least positive element below zero. -/
def thresholdBound : Precision → Scalar .double
  | .single => .ofCode true (873 * 2 ^ Precision.double.fractionBits) (by decide)
  | .double => .zero

theorem units_thresholdBound : Precision.double.units (thresholdBound .single).code =
    2 ^ (Precision.double.fractionBits + 872) := by
  have hzero : 0 < 2 ^ Precision.double.fractionBits := Nat.two_pow_pos _
  have hcode : (thresholdBound .single).code =
      (872 + 1) * 2 ^ Precision.double.fractionBits + 0 := rfl
  rw [hcode, Precision.double.units_normal hzero, Nat.add_zero, ← Nat.pow_add]

/-- A magnitude vanishes in 32 bits up to that of the bound. -/
theorem vanishes_iff {code : Nat} :
    2 * (Precision.double.units code * Precision.single.one) ≤ Precision.double.one ↔
      code ≤ (thresholdBound .single).code := by
  have hexponent : Precision.double.unitExponent =
      Precision.double.fractionBits + 872 + Precision.single.unitExponent + 1 := rfl
  have hpow : Precision.double.one =
      2 * (2 ^ (Precision.double.fractionBits + 872) * Precision.single.one) := by
    rw [Precision.one, Precision.one, hexponent, ← Nat.pow_add, ← Nat.pow_succ']
  have hone : 0 < Precision.single.one := Nat.two_pow_pos _
  rw [hpow, ← units_thresholdBound, Nat.mul_le_mul_left_iff (by decide),
    Nat.mul_le_mul_right_iff hone, Precision.double.units_strictMono.le_iff_le]

theorem lt_bound_single {x : Scalar .double} (h : x.isNaN = false) :
    x.lt (thresholdBound .single) = true ↔
      x.negative = true ∧ (thresholdBound .single).code < x.code := by
  have hbound : (thresholdBound .single).isNaN = false := by decide
  have hkey : (thresholdBound .single).key = -((thresholdBound .single).code : Int) := rfl
  rw [Scalar.lt_iff, hkey, Scalar.key]
  cases x.negative with
  | false =>
    simp only [Bool.false_eq_true, if_false, false_and, iff_false]
    omega
  | true =>
    simp only [h, hbound, if_true, true_and]
    omega

/-- Narrowed, a threshold is at least zero where it is a number and not less than the bound. -/
theorem zero_le_ofDouble_iff {x : Scalar .double} :
    Scalar.zero.le (.ofDouble x : Scalar p) = true ↔
      ¬(x.isNaN = true ∨ x.lt (thresholdBound p) = true) := by
  cases p with
  | double => exact (Decidable.not_iff_comm.1 Scalar.not_zero_le_iff).symm
  | single =>
    show Scalar.zero.le (Scalar.convert x : Scalar .single) = true ↔ _
    cases hnan : x.isNaN with
    | true => simp [Scalar.convert_of_isNaN hnan, Scalar.zero_le_iff, Scalar.nan_isNaN]
    | false =>
      rw [lt_bound_single hnan]
      cases hinfinite : x.isInfinite with
      | true =>
        have hcode : x.code = Precision.double.infinity := by
          simpa [Scalar.isInfinite] using hinfinite
        have hlarge : (thresholdBound .single).code < Precision.double.infinity := by decide
        rw [Scalar.convert_of_isInfinite hnan hinfinite, hcode]
        cases x.negative with
        | false => simp [Scalar.zero_le_iff]; decide
        | true => simp [hlarge]; decide
      | false =>
        have hone : 0 < Precision.double.one := Nat.two_pow_pos _
        rw [Scalar.convert_of_finite hnan hinfinite, Scalar.zero_le_round_iff hone, vanishes_iff]
        cases x.negative with
        | false => simp
        | true => simp

/-! ### Refusals -/

theorem compress_eq_invalidThreshold : compress P g t = .error (.refused .invalidThreshold) ↔
    ¬Scalar.zero.le t = true := by
  rw [compress_eq_error_iff]
  constructor
  · intro h
    cases h with
    | threshold ht => exact ht
  · exact .threshold

/-- The task of a row is never about the threshold. -/
theorem rowTask_ne_invalidThreshold (hsize : P.size = g.rows) (i : Nat) :
    rowTask P g t i ≠ .error (.refused .invalidThreshold) := by
  intro h
  cases hrow : P.rows[i]? with
  | none =>
    rw [rowTask, Pattern.row, hrow] at h
    cases h
  | some columns =>
    rw [rowTask_eq hrow] at h
    obtain ⟨c, -, -, -, h⟩ := (compressRow_eq_error (lt_rows hsize hrow)).1 h
    cases h

theorem compressInOrder_eq_invalidThreshold {order : List Nat} :
    compressInOrder order P g t = .error (.refused .invalidThreshold) ↔
      ¬Scalar.zero.le t = true := by
  rw [compressInOrder_eq]
  constructor
  · intro h ht
    cases hcheck : checkCompression P g t with
    | error failure =>
      rw [hcheck] at h
      obtain rfl := Except.error.inj h
      rcases checkCompression_eq_error.1 hcheck with ⟨hnot, -⟩ | ⟨-, -, h⟩
      · exact hnot ht
      · cases h
    | ok _ =>
      have hsize := (checkCompression_eq_ok.1 hcheck).2
      rw [hcheck, Attempt.ok_bind] at h
      cases hfinished : finishAll order P g t with
      | error failure =>
        rw [hfinished] at h
        obtain rfl := Except.error.inj h
        obtain ⟨i, -, hfail⟩ := finishAll_eq_error hfinished
        exact rowTask_ne_invalidThreshold hsize i hfail
      | ok finished =>
        -- what can be wrong with putting results back is that one is missing
        rw [hfinished, Attempt.ok_bind] at h
        have hmissing := (Attempt.bind_eq_error_of_ok fun rows => ⟨(⟨rows⟩ : Pattern), rfl⟩).1 h
        obtain ⟨i, k, -, hlookup, -⟩ := Attempt.mapM_eq_error.1 hmissing
        split at hlookup
        · cases hlookup
        · cases hlookup
  · intro ht
    rw [checkCompression_eq_error.2 (.inl ⟨ht, rfl⟩)]
    rfl

/-- Settings are refused for their threshold, in sequence and in parallel, where it is a NaN or less
than the bound of the elements. -/
theorem settings_refuse_threshold (s : Settings) (schedule : Schedule) (P : Pattern) (g : Grid p) :
    s.compress schedule P g = .error (.refused .invalidThreshold) ↔
      s.threshold.isNaN = true ∨ s.threshold.lt (thresholdBound p) = true := by
  rw [← Decidable.not_not (p := _ ∨ _), ← zero_le_ofDouble_iff (p := p), Settings.compress]
  split
  · exact compressInOrder_eq_invalidThreshold
  · exact compress_eq_invalidThreshold

/-- With elements of 32 bits a threshold can be negative and pass, in sequence and in parallel. -/
theorem negative_threshold_passes :
    let x : Scalar .double := .ofLiteral (.number true ⟨1, -50⟩)
    let g : Grid .single := .filled 1 1 .zero
    x.lt .zero = true ∧ ∀ parallel, (⟨x, parallel, 0⟩ : Settings).compress .inOrder (.empty 1) g =
      .ok (.empty 1) := by
  decide +kernel

end CowArrays
