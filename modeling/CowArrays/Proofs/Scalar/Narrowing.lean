import CowArrays.Proofs.Scalar.Order
import Mathlib.Order.Monotone.Basic

/-!
Which scalars vanish where they are rounded to another format: those of at most half the least
positive magnitude. What vanishes keeps its sign, but a zero of either sign is at least zero.
-/

namespace CowArrays

/-- A quotient rounds to zero up to a half, which goes to the even neighbour. -/
theorem roundHalfEven_eq_zero_iff {num den : Nat} (hden : 0 < den) :
    roundHalfEven num den = 0 ↔ 2 * num ≤ den := by
  have hdiv := Nat.div_add_mod num den
  have hmod := Nat.mod_lt num hden
  rcases Nat.eq_zero_or_pos (num / den) with hzero | hpos
  · rw [hzero] at hdiv
    simp only [roundHalfEven, hzero]
    grind
  · have hle := le_roundHalfEven num den
    have hnum : den * 1 ≤ den * (num / den) := Nat.mul_le_mul_left den hpos
    omega

namespace Precision

variable (p : Precision)

theorem infinity_pos : 0 < p.infinity := by cases p <;> decide

/-- A quantity is nearest to zero up to half a unit. -/
theorem nearest_eq_zero_iff {num den : Nat} (hden : 0 < den) :
    p.nearest num den = 0 ↔ 2 * num ≤ den := by
  have hfraction : 0 < 2 ^ p.fractionBits := Nat.two_pow_pos _
  have hinfinity := p.infinity_pos
  by_cases hscale : Nat.log2 (num / den) - p.fractionBits = 0
  · rw [nearest, hscale, Nat.zero_mul, Nat.zero_add, Nat.pow_zero, Nat.mul_one,
      ← roundHalfEven_eq_zero_iff hden]
    omega
  · -- what has to be scaled down is a whole number of units
    have hlarge : num / den ≠ 0 := by
      intro hzero
      rw [hzero] at hscale
      exact hscale (by simp)
    have hnum : ¬2 * num ≤ den := by
      intro hle
      exact hlarge (Nat.div_eq_of_lt (by omega))
    have hcode : 0 < (Nat.log2 (num / den) - p.fractionBits) * 2 ^ p.fractionBits :=
      Nat.mul_pos (Nat.pos_of_ne_zero hscale) hfraction
    rw [nearest]
    omega

theorem units_normal {k m : Nat} (hm : m < 2 ^ p.fractionBits) :
    p.units ((k + 1) * 2 ^ p.fractionBits + m) = (2 ^ p.fractionBits + m) * 2 ^ k := by
  have hpos : 0 < 2 ^ p.fractionBits := Nat.two_pow_pos _
  have hle : 2 ^ p.fractionBits ≤ (k + 1) * 2 ^ p.fractionBits :=
    Nat.le_mul_of_pos_left _ k.succ_pos
  have hdiv : ((k + 1) * 2 ^ p.fractionBits + m) / 2 ^ p.fractionBits = k + 1 := by
    rw [Nat.mul_comm, Nat.mul_add_div hpos, Nat.div_eq_of_lt hm, Nat.add_zero]
  have hmod : ((k + 1) * 2 ^ p.fractionBits + m) % 2 ^ p.fractionBits = m := by
    rw [Nat.mul_comm, Nat.mul_add_mod, Nat.mod_eq_of_lt hm]
  rw [units, if_neg (by omega), hdiv, hmod, Nat.add_sub_cancel]

theorem units_subnormal {code : Nat} (h : code < 2 ^ p.fractionBits) : p.units code = code := by
  rw [units, if_pos h]

theorem units_strictMono : StrictMono p.units := by
  refine strictMono_nat_of_lt_succ fun code => ?_
  have hpos : 0 < 2 ^ p.fractionBits := Nat.two_pow_pos _
  obtain ⟨m, k, hm, hcode⟩ : ∃ m k, m < 2 ^ p.fractionBits ∧ code = k * 2 ^ p.fractionBits + m :=
    ⟨code % 2 ^ p.fractionBits, code / 2 ^ p.fractionBits, Nat.mod_lt _ hpos,
      (Nat.div_add_mod' _ _).symm⟩
  rw [hcode]
  by_cases hnext : m + 1 < 2 ^ p.fractionBits
  · -- the exponent stays
    cases k with
    | zero =>
      rw [Nat.zero_mul, Nat.zero_add, units_subnormal p hm, units_subnormal p hnext]
      omega
    | succ k =>
      rw [Nat.add_assoc, units_normal p hm, units_normal p hnext]
      exact Nat.mul_lt_mul_of_pos_right (by omega) (Nat.two_pow_pos k)
  · -- the fraction starts again with the next exponent
    have hcarry : k * 2 ^ p.fractionBits + m + 1 = (k + 1) * 2 ^ p.fractionBits + 0 := by
      rw [Nat.succ_mul]
      omega
    rw [hcarry, units_normal p hpos]
    cases k with
    | zero =>
      rw [Nat.zero_mul, Nat.zero_add, units_subnormal p hm]
      omega
    | succ k =>
      rw [units_normal p hm, Nat.pow_succ, Nat.mul_comm (2 ^ k), ← Nat.mul_assoc]
      exact Nat.mul_lt_mul_of_pos_right (by omega) (Nat.two_pow_pos k)

end Precision

namespace Scalar

variable {p : Precision}

theorem round_isNaN (negative : Bool) (num den : Nat) :
    (round negative num den : Scalar p).isNaN = false :=
  decide_eq_false (Nat.not_lt.2 (p.nearest_le num den))

theorem nan_isNaN (negative : Bool) : (nan negative : Scalar p).isNaN = true := by
  cases p <;> rfl

/-- A rounded quantity is at least zero where it is not negative or vanishes. -/
theorem zero_le_round_iff {negative : Bool} {num den : Nat} (hden : 0 < den) :
    zero.le (round negative num den : Scalar p) = true ↔ negative = false ∨ 2 * num ≤ den := by
  rw [zero_le_iff, round_isNaN, ← p.nearest_eq_zero_iff hden]
  cases negative with
  | false => simp [key, round, ofCode]
  | true => simp [key, round, ofCode]

/-! ### Conversion, class by class -/

section Conversion

variable {q : Precision} {x : Scalar q}

theorem convert_of_isNaN (hnan : x.isNaN = true) : (x.convert : Scalar p) = nan x.negative :=
  if_pos hnan

theorem convert_of_isInfinite (hnan : x.isNaN = false) (hinfinite : x.isInfinite = true) :
    (x.convert : Scalar p) = infinite x.negative := by
  rw [convert, hnan, hinfinite, if_neg Bool.false_ne_true, if_pos rfl]

theorem convert_of_finite (hnan : x.isNaN = false) (hfinite : x.isInfinite = false) :
    (x.convert : Scalar p) = round x.negative (q.units x.code * p.one) q.one := by
  rw [convert, hnan, hfinite, if_neg Bool.false_ne_true, if_neg Bool.false_ne_true]

end Conversion

end Scalar
end CowArrays
