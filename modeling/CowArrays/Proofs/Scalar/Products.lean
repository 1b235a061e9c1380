import CowArrays.Proofs.Scalar.Widening

/-!
Sums and products with special terms: a NaN is carried on by both, and a factor of one leaves a
scalar as it is.
-/

namespace CowArrays

theorem roundHalfEven_mul_left {k : Nat} (hk : 0 < k) (num den : Nat) :
    roundHalfEven (k * num) (k * den) = roundHalfEven num den := by
  have hdouble : 2 * (k * (num % den)) = k * (2 * (num % den)) := Nat.mul_left_comm 2 k _
  simp only [roundHalfEven, Nat.mul_div_mul_left _ _ hk, Nat.mul_mod_mul_left, hdouble,
    Nat.mul_lt_mul_left hk]

theorem Precision.nearest_mul_left (p : Precision) {k : Nat} (hk : 0 < k) (num den : Nat) :
    p.nearest (k * num) (k * den) = p.nearest num den := by
  simp only [nearest, Nat.mul_div_mul_left _ _ hk, Nat.mul_assoc, roundHalfEven_mul_left hk]

namespace Scalar

variable {p : Precision} {x y : Scalar p}

/-! ### NaNs -/

theorem isNaN_add_right (x : Scalar p) (h : y.isNaN = true) : (x + y).isNaN = true := by
  show (add x y).isNaN = true
  simp [add, h, nan_isNaN]

theorem isNaN_mul_right (x : Scalar p) (h : y.isNaN = true) : (x * y).isNaN = true := by
  show (mul x y).isNaN = true
  simp [mul, h, nan_isNaN]

/-! ### One -/

/-- One is a whole number of units, so it is not rounded. -/
theorem units_unit : p.units (unit : Scalar p).code = p.one := by
  cases p <;> decide +kernel

theorem isProper_unit : (unit : Scalar p).IsProper := by
  cases p <;> exact ⟨by decide +kernel, by decide +kernel⟩

/-- A factor of one changes nothing, bit for bit, unless the other factor is a NaN. -/
theorem unit_mul (h : x.isNaN = false) : unit * x = x := by
  have hunit := isProper_unit (p := p)
  have hsign : ((unit : Scalar p).negative != x.negative) = x.negative := by
    show (false != x.negative) = x.negative
    simp
  show mul unit x = x
  simp only [mul, hsign, hunit.isNaN, hunit.isInfinite, hunit.isZero, h, Bool.or_false,
    Bool.false_or, Bool.false_eq_true, if_false]
  cases hinfinite : x.isInfinite with
  | true =>
    have hzero : x.isZero = false := by
      have hcode : x.code = p.infinity := beq_iff_eq.1 hinfinite
      have hpos := p.infinity_pos
      exact beq_eq_false_iff_ne.2 (by omega)
    simp only [hzero, if_true, Bool.false_eq_true, if_false]
    exact (eq_infinite hinfinite).symm
  | false =>
    have hnearest : p.nearest (p.one * p.units x.code) p.one = x.code := by
      have hscaled := p.nearest_mul_left p.one_pos (p.units x.code) 1
      rw [Nat.mul_one] at hscaled
      rw [hscaled, p.nearest_units (code_lt_infinity h hinfinite)]
    simp only [Bool.false_eq_true, if_false, units_unit]
    exact round_eq rfl hnearest

end Scalar
end CowArrays
