import CowArrays.Proofs.Scalar.Nearest

/-!
Conversion between the two formats. Zeros and infinities keep to themselves. A proper scalar of 32
bits is normal in 64 bits, so widening it is off by a small part of it at most, and whatever is close
enough to it there is narrowed to it.
-/

namespace CowArrays

namespace Precision

/-- Units of 64 bits in one of 32 bits. -/
def widening : Nat := 2 ^ 925

theorem widening_pos : 0 < widening := by decide +kernel

theorem one_double : double.one = single.one * widening := by decide +kernel

def greatest (p : Precision) : ℚ := p.units (p.infinity - 1)

end Precision

namespace Scalar

/-! ### Zeros and infinities -/

section Words

variable {p q : Precision} (negative : Bool)

theorem isNaN_infinite : (infinite negative : Scalar p).isNaN = false := by
  simp [isNaN, infinite, ofCode]

theorem isInfinite_infinite : (infinite negative : Scalar p).isInfinite = true := by
  simp [isInfinite, infinite, ofCode]

theorem convert_infinite :
    (infinite negative : Scalar q).convert = (infinite negative : Scalar p) :=
  convert_of_isInfinite (isNaN_infinite negative) (isInfinite_infinite negative)

theorem convert_signedZero :
    (signedZero negative : Scalar q).convert = (signedZero negative : Scalar p) := by
  have hinfinity := q.infinity_pos
  have hunits : q.units (signedZero negative : Scalar q).code = 0 := q.units_zero
  rw [convert_of_finite (by simp [isNaN, signedZero, ofCode])
    (by simp [isInfinite, signedZero, ofCode, hinfinity.ne]), hunits, Nat.zero_mul]
  exact round_zero negative q.one_pos

end Words

theorem eq_infinite {p : Precision} {x : Scalar p} (hinfinite : x.isInfinite = true) :
    x = infinite x.negative := by
  have hcode : x.code = p.infinity := beq_iff_eq.1 hinfinite
  simp only [infinite, ofCode, ← hcode]

theorem eq_signedZero {p : Precision} {x : Scalar p} (hzero : x.code = 0) :
    x = signedZero x.negative := by
  simp only [signedZero, ofCode, ← hzero]

/-! ### Proper scalars -/

/-- The magnitude of a 32-bit scalar in units of 64 bits. -/
def widened (v : Scalar .single) : ℚ := Precision.single.units v.code * Precision.widening

/-- Finite 32-bit scalars, and what is close to one, are normal and finite in 64 bits. -/
theorem IsProper.widened_bounds {v : Scalar .single} (hv : v.IsProper) :
    (2 ^ 52 : ℚ) * 4 ≤ widened v ∧ 4 * widened v ≤ Precision.double.greatest := by
  have hleast : 1 ≤ Precision.single.units v.code :=
    Precision.single.units_pos (Nat.pos_of_ne_zero hv.nonzero)
  have hmost : Precision.single.units v.code ≤ Precision.single.units Precision.single.infinity :=
    (Precision.single.units_strictMono hv.finite).le
  have hlow : 2 ^ 52 * 4 ≤ 1 * Precision.widening := by decide +kernel
  have hhigh : 4 * (Precision.single.units Precision.single.infinity * Precision.widening) ≤
      Precision.double.units (Precision.double.infinity - 1) := by
    decide +kernel
  unfold widened Precision.greatest
  constructor
  · exact_mod_cast hlow.trans (Nat.mul_le_mul_right _ hleast)
  · exact_mod_cast (Nat.mul_le_mul_left 4 (Nat.mul_le_mul_right _ hmost)).trans hhigh

/-- Rounding to 64 bits is off by a part of the quantity. -/
theorem round_double_close (negative : Bool) {num den : Nat} (hden : 0 < den) {a : ℚ}
    (ha : (num / den : ℚ) = a) (hlow : 2 ^ 52 ≤ a) (hhigh : a ≤ Precision.double.greatest) :
    (round negative num den : Scalar .double).IsProper ∧
      |(Precision.double.units (round negative num den : Scalar .double).code : ℚ) - a| *
        (2 * 2 ^ 52) ≤ a := by
  have hinfinity := Precision.double.infinity_pos
  rw [← ha] at hlow hhigh ⊢
  have hfinite := Precision.nearest_lt_infinity hden (by omega) hhigh
  have herror : |(Precision.double.units (round negative num den : Scalar .double).code : ℚ) -
      num / den| * (2 * 2 ^ 52) ≤ num / den :=
    Precision.abs_units_nearest_sub_le hden hfinite hlow
  refine ⟨⟨hfinite, fun hzero => ?_⟩, herror⟩
  obtain ⟨hhalf, -⟩ := half_le_of_close (by norm_num) herror
  rw [hzero, Precision.units_zero] at hhalf
  push_cast at hhalf
  linarith

/-- Widening keeps the sign, and is off by a part of the value at most. -/
theorem IsProper.toDouble_close {v : Scalar .single} (hv : v.IsProper) :
    v.toDouble.IsProper ∧ v.toDouble.negative = v.negative ∧
      |(Precision.double.units v.toDouble.code : ℚ) - widened v| * (2 * 2 ^ 52) ≤ widened v := by
  have hwide : v.toDouble = round v.negative
      (Precision.single.units v.code * Precision.double.one) Precision.single.one :=
    convert_of_finite hv.isNaN hv.isInfinite
  have hquantity : ((Precision.single.units v.code * Precision.double.one : Nat) /
      Precision.single.one : ℚ) = widened v := by
    have hone : (Precision.single.one : ℚ) ≠ 0 := Nat.cast_ne_zero.2 Precision.single.one_pos.ne'
    rw [Precision.one_double, widened, ← Nat.mul_assoc, Nat.mul_right_comm, Nat.cast_mul,
      mul_div_cancel_right₀ _ hone, Nat.cast_mul]
  obtain ⟨hlow, hhigh⟩ := hv.widened_bounds
  rw [hwide]
  obtain ⟨hproper, herror⟩ := round_double_close v.negative Precision.single.one_pos hquantity
    (by linarith) (by linarith)
  exact ⟨hproper, rfl, herror⟩

/-- What is close enough to a 32-bit scalar is narrowed to it. -/
theorem IsProper.ofDouble_eq {v : Scalar .single} (hv : v.IsProper) {x : Scalar .double}
    (hx : x.IsProper) (hsign : x.negative = v.negative)
    (hclose : |(Precision.double.units x.code : ℚ) - widened v| * (4 * 2 ^ 23) < widened v) :
    ofDouble x = v := by
  have hnarrow : ofDouble x = (round x.negative (Precision.double.units x.code *
      Precision.single.one) Precision.double.one : Scalar .single) :=
    convert_of_finite hx.isNaN hx.isInfinite
  have hone : (Precision.single.one : ℚ) ≠ 0 := Nat.cast_ne_zero.2 Precision.single.one_pos.ne'
  have hk : (0 : ℚ) < Precision.widening := Nat.cast_pos.2 Precision.widening_pos
  have hquantity : ((Precision.double.units x.code * Precision.single.one : Nat) /
      Precision.double.one : ℚ) = Precision.double.units x.code / Precision.widening := by
    rw [Precision.one_double, Nat.cast_mul, Nat.cast_mul, mul_comm, mul_div_mul_left _ _ hone]
  rw [hnarrow]
  refine round_eq hsign (Precision.nearest_eq_of_close Precision.double.one_pos hv.finite ?_)
  have hscaled : (Precision.double.units x.code : ℚ) - widened v =
      (Precision.double.units x.code / Precision.widening - Precision.single.units v.code) *
        Precision.widening := by
    rw [sub_mul, div_mul_cancel₀ _ hk.ne', widened]
  rw [hscaled, abs_mul, abs_of_pos hk, mul_right_comm, widened] at hclose
  rw [hquantity]
  exact lt_of_mul_lt_mul_right hclose hk.le

end Scalar
end CowArrays
