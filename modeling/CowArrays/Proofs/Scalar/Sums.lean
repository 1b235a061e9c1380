import CowArrays.Proofs.Scalar.Extents
import CowArrays.Proofs.Scalar.Order

/-!
Sums of which one term is a zero, and differences. A zero of either sign is no reason to round. A
difference that is taken the other way round has the same magnitude, and a finite scalar, but no
other one, differs from itself by zero.
-/

namespace CowArrays.Scalar

variable {p : Precision} {x y t : Scalar p}

/-! ### Zeros -/

theorem isFinite_of_code (h : x.code = 0) : x.isFinite = true := by
  have hpos := p.infinity_pos
  exact decide_eq_true (by omega)

theorem value_of_code (h : x.code = 0) : x.value = 0 := by
  simp [value, h, p.units_zero]

theorem code_zero_mul (h : x.isFinite = true) : (zero * x).code = 0 := by
  have hunits : p.units (zero : Scalar p).code * p.units x.code = 0 := by
    rw [show (zero : Scalar p).code = 0 from rfl, p.units_zero, Nat.zero_mul]
  show (mul zero x).code = 0
  simp [mul, isNaN_zero, isInfinite_zero, isNaN_of_isFinite h, isInfinite_of_isFinite h, hunits,
    round_code, p.nearest_zero p.one_pos]

/-- A zero, of either sign, changes nothing that is neither a NaN nor a zero. -/
theorem add_of_code (hnan : x.isNaN = false) (hx : x.code ≠ 0) (hy : y.code = 0) : x + y = x := by
  have hfinite := isFinite_of_code hy
  -- the sum is that of zero and the scalar: an order of terms matters for sums that are zero only
  have hswap : x + y = .zero + x := by
    show add x y = add zero x
    cases hinfinite : x.isInfinite <;>
      simp [add, hnan, hinfinite, isNaN_zero, isInfinite_zero, isNaN_of_isFinite hfinite,
        isInfinite_of_isFinite hfinite, value_of_code hy, value_zero, value_ne_zero hx]
  rw [hswap, zero_add_eq hnan hx]

/-- Further zeros change no sum that starts with zero. -/
theorem zero_add_add_of_code (hnan : x.isNaN = false) (hy : y.code = 0) :
    .zero + x + y = .zero + x := by
  by_cases hx : x.code = 0
  · rw [zero_add_of_code hx, zero_add_of_code hy]
  · rw [zero_add_eq hnan hx, add_of_code hnan hx hy]

theorem same_zero_add (hnan : x.isNaN = false) : (.zero + x).same x = true := by
  by_cases hx : x.code = 0
  · have hkey : x.key = 0 := by simp [key, hx]
    rw [zero_add_of_code hx]
    exact same_iff.2 ⟨isNaN_zero, hnan, key_zero.trans hkey.symm⟩
  · rw [zero_add_eq hnan hx]
    exact same_iff.2 ⟨hnan, hnan, rfl⟩

/-! ### Differences -/

theorem value_neg (x : Scalar p) : (-x).value = -x.value := by
  show value (neg x) = -value x
  cases hsign : x.negative <;> simp [value, neg, hsign]

theorem code_sub_comm (x y : Scalar p) : (x - y).code = (y - x).code := by
  have hneg (z : Scalar p) : (-z).isNaN = z.isNaN ∧ (-z).isInfinite = z.isInfinite ∧
      (-z).negative = (!z.negative) ∧ (-z).code = z.code := ⟨rfl, rfl, rfl, rfl⟩
  show (add x (-y)).code = (add y (-x)).code
  simp only [add, hneg, Bool.or_comm y.isNaN]
  by_cases hnan : (x.isNaN || y.isNaN) = true
  · rw [if_pos hnan, if_pos hnan]
  rw [if_neg hnan, if_neg hnan]
  cases hx : x.isInfinite <;> cases hy : y.isInfinite
  · -- the exact differences are opposite, so they are rounded alike
    have hopposite : y.value + (-x).value = -(x.value + (-y).value) := by
      rw [value_neg, value_neg]
      omega
    simp only [hopposite, Bool.false_eq_true, if_false, Int.neg_eq_zero, Int.natAbs_neg]
    split <;> rfl
  · rfl
  · rfl
  · have hcode : x.code = y.code := (beq_iff_eq.1 hx).trans (beq_iff_eq.1 hy).symm
    cases x.negative <;> cases y.negative <;> simp [hcode]

/-- Of what is not finite and itself, the difference is a NaN. -/
theorem sub_self_cases (x : Scalar p) :
    x.isFinite = true ∧ x - x = zero ∨ x.isFinite = false ∧ (x - x).isNaN = true := by
  have hneg : (-x).isNaN = x.isNaN ∧ (-x).isInfinite = x.isInfinite ∧
      (-x).negative = !x.negative := ⟨rfl, rfl, rfl⟩
  show _ ∧ add x (-x) = zero ∨ _ ∧ (add x (-x)).isNaN = true
  cases hfinite : x.isFinite with
  | true =>
    have hsum : x.value + (-x).value = 0 := by rw [value_neg, Int.add_right_neg]
    refine .inl ⟨rfl, ?_⟩
    simp [add, hneg, isNaN_of_isFinite hfinite, isInfinite_of_isFinite hfinite, hsum, zero]
  | false =>
    refine .inr ⟨rfl, ?_⟩
    by_cases hnan : x.isNaN = true
    · simp [add, hnan, nan_isNaN]
    · have hinfinite : x.isInfinite = true := by
        simp only [isFinite, isNaN, decide_eq_false_iff_not, decide_eq_true_eq] at hfinite hnan
        exact beq_iff_eq.2 (by omega)
      simp [add, hneg, hnan, hinfinite, nan_isNaN]

/-! ### Bounds of differences -/

theorem magnitude_le_iff :
    x.magnitude.le t = true ↔ x.isNaN = false ∧ t.isNaN = false ∧ (x.code : Int) ≤ t.key := by
  rw [le_iff, isNaN_magnitude]
  refine and_congr_right fun hnan => ?_
  rw [key_magnitude hnan]

theorem magnitude_sub_le_comm (x y t : Scalar p) :
    (x - y).magnitude.le t = (y - x).magnitude.le t := by
  have hcode := code_sub_comm x y
  have hnan : (x - y).isNaN = (y - x).isNaN := by rw [isNaN, isNaN, hcode]
  rw [Bool.eq_iff_iff, magnitude_le_iff, magnitude_le_iff, hnan, hcode]

/-- Exactly what is finite is within a bound from zero on of itself. -/
theorem magnitude_sub_self_le (ht : zero.le t = true) : (x - x).magnitude.le t = x.isFinite := by
  obtain ⟨hnan, hkey⟩ := zero_le_iff.1 ht
  rw [Bool.eq_iff_iff, magnitude_le_iff]
  rcases sub_self_cases x with ⟨hfinite, hzero⟩ | ⟨hfinite, hsub⟩
  · have hcode : ((zero : Scalar p).code : Int) = 0 := rfl
    rw [hzero]
    simpa [hfinite, isNaN_zero, hnan, hcode] using hkey
  · simp [hfinite, hsub]

end CowArrays.Scalar
