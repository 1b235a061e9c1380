import CowArrays.Proofs.Scalar.Nearest
import CowArrays.Proofs.Text.Scientific
import Mathlib.Algebra.Order.Field.Power

/-!
Decimals as numbers. Rounding to so many digits is off by at most half a unit of the last of them,
scientific notation keeps all that it is given, and what is read is rounded once. So the text of a
scalar says a quantity that is close to it.
-/

namespace CowArrays

/-- Finite scalars of 64 bits are in the reach of all formats, also twice and half of them. -/
theorem Precision.double_bounds {code : Nat} (hfinite : code < Precision.double.infinity)
    (hzero : code ≠ 0) :
    (10 : ℚ) ^ (-Decimal.reach) ≤ Precision.double.units code / Precision.double.one / 2 ∧
      2 * (Precision.double.units code / Precision.double.one : ℚ) ≤ 10 ^ Decimal.reach := by
  have hleast : 1 ≤ Precision.double.units code :=
    Precision.double.units_strictMono (Nat.pos_of_ne_zero hzero)
  have hmost : Precision.double.units code ≤ 2 ^ 2098 := by
    have hlt := (Precision.double.units_strictMono hfinite).le
    have htop : Precision.double.units Precision.double.infinity = 2 ^ 2098 := by decide +kernel
    rwa [htop] at hlt
  have hone : (0 : ℚ) < Precision.double.one := Nat.cast_pos.2 Precision.double.one_pos
  have hreach : Decimal.reach = (400 : Nat) := rfl
  have hten : (0 : ℚ) < 10 ^ 400 := by positivity
  rw [hreach, zpow_neg, zpow_natCast, div_div, mul_div_assoc', le_div_iff₀ (mul_pos hone two_pos),
    div_le_iff₀ hone, inv_mul_le_iff₀ hten]
  constructor
  · have hpower : Precision.double.one * 2 ≤ 10 ^ 400 * 1 := by decide +kernel
    exact_mod_cast hpower.trans (Nat.mul_le_mul_left _ hleast)
  · have hpower : 2 * 2 ^ 2098 ≤ 10 ^ 400 * Precision.double.one := by decide +kernel
    exact_mod_cast (Nat.mul_le_mul_left 2 hmost).trans hpower

/-! ### Lengths -/

namespace Decimal

theorem length_le_iff {n k : Nat} : length n ≤ k ↔ n < 10 ^ k := by
  induction k generalizing n with
  | zero =>
    rw [length]
    split <;> simp_all
  | succ k ih =>
    rw [length]
    split
    · rename_i hzero
      simp [hzero]
    · rw [Nat.add_le_add_iff_right, ih, Nat.div_lt_iff_lt_mul (by omega), Nat.pow_succ]

theorem length_pos {n : Nat} (hn : 0 < n) : 0 < length n := by
  rw [length, dif_neg hn.ne']
  exact Nat.succ_pos _

theorem exists_length_eq {n : Nat} (hn : 0 < n) :
    ∃ k, length n = k + 1 ∧ 10 ^ k ≤ n ∧ n < 10 ^ (k + 1) := by
  obtain ⟨k, hk⟩ : ∃ k, length n = k + 1 := Nat.exists_eq_add_one.2 (length_pos hn)
  refine ⟨k, hk, Nat.le_of_not_lt fun hlt => ?_, length_le_iff.1 hk.le⟩
  have hle := length_le_iff.2 hlt
  omega

theorem length_text (d : Decimal) (hd : 0 < d.digits) : d.text.length = length d.digits := by
  have htext {k : Nat} (hk : 0 < k) : d.text.length ≤ k ↔ length d.digits ≤ k :=
    (Nat.length_toDigits_le_iff (by decide) hk).trans length_le_iff.symm
  exact Nat.le_antisymm ((htext (length_pos hd)).2 (Nat.le_refl _))
    ((htext Nat.length_toDigits_pos).1 (Nat.le_refl _))

/-- Scientific notation reads back as the decimal that was written. -/
theorem read_writeScientific_of_pos {d : Decimal} (hd : 0 < d.digits) :
    read (NumberStyle.writeScientific false d).toList = some d := by
  have hpos := length_pos hd
  have hexponent : d.leading - (d.text.length - 1 : Nat) = d.exponent := by
    rw [length_text d hd, leading]
    omega
  rw [read_writeScientific, hexponent]

/-! ### Values -/

def amount (d : Decimal) : ℚ := d.digits * 10 ^ d.exponent

section Grids

variable {num den : Nat}

/-- The power of ten found for a quotient is the one at or below it. -/
theorem magnitude_spec (hnum : 0 < num) (hden : 0 < den) :
    (10 : ℚ) ^ magnitude num den ≤ num / den ∧ (num / den : ℚ) < 10 ^ (magnitude num den + 1) := by
  have hden' : (0 : ℚ) < den := by exact_mod_cast hden
  rw [le_div_iff₀ hden', div_lt_iff₀ hden']
  unfold magnitude
  split
  · -- the integer part has as many digits as the magnitude says, and one
    rename_i hle
    obtain ⟨k, hk, hlow, hhigh⟩ := exists_length_eq (Nat.div_pos hle hden)
    have hcast : ((k + 1 : Nat) : Int) - 1 = (k : Int) := by omega
    rw [Nat.le_div_iff_mul_le hden] at hlow
    rw [Nat.div_lt_iff_lt_mul hden] at hhigh
    rw [hk, hcast]
    exact ⟨by exact_mod_cast hlow, by exact_mod_cast hhigh⟩
  · -- the inverse lies between two powers of ten, the upper one included
    rename_i hlt
    have hfloor : (den + num - 1) / num - 1 = (den - 1) / num := by
      have hsum : den + num - 1 = den - 1 + num := by omega
      rw [hsum, Nat.add_div_right _ hnum, Nat.add_sub_cancel]
    rw [hfloor]
    obtain ⟨k, hk, hlow, hhigh⟩ := exists_length_eq (Nat.div_pos (by omega : num ≤ den - 1) hnum)
    rw [Nat.le_div_iff_mul_le hnum] at hlow
    rw [Nat.div_lt_iff_lt_mul hnum] at hhigh
    have hlow' : 10 ^ k * num < den := by omega
    have hhigh' : den ≤ 10 ^ (k + 1) * num := by omega
    have hcast : -((k + 1 : Nat) : Int) + 1 = -(k : Int) := by omega
    rw [hk, hcast, zpow_neg, zpow_neg, zpow_natCast, zpow_natCast, inv_mul_le_iff₀ (by positivity),
      ← div_eq_inv_mul, lt_div_iff₀ (by positivity)]
    constructor
    · exact_mod_cast hhigh'
    · rw [mul_comm]
      exact_mod_cast hlow'

theorem magnitude_eq (hnum : 0 < num) (hden : 0 < den) {m : Int} (hlow : (10 : ℚ) ^ m ≤ num / den)
    (hhigh : (num / den : ℚ) < 10 ^ (m + 1)) : magnitude num den = m := by
  have ⟨hleast, hnext⟩ := magnitude_spec hnum hden
  have hten : (1 : ℚ) < 10 := by norm_num
  have hle := (zpow_lt_zpow_iff_right₀ hten).1 (hleast.trans_lt hhigh)
  have hge := (zpow_lt_zpow_iff_right₀ hten).1 (hlow.trans_lt hnext)
  omega

theorem onGrid_spec (num : Nat) (hden : 0 < den) (e : Int) :
    0 < (onGrid num den e).2 ∧
      ((onGrid num den e).1 / (onGrid num den e).2 : ℚ) = num / den / 10 ^ e := by
  unfold onGrid
  split
  · obtain ⟨k, rfl⟩ := Int.eq_ofNat_of_zero_le ‹_›
    refine ⟨Nat.mul_pos hden (Nat.pow_pos (by decide)), ?_⟩
    simp [div_div]
  · obtain ⟨k, hk⟩ := Int.eq_ofNat_of_zero_le (a := -e) (by omega)
    obtain rfl : e = -k := by omega
    refine ⟨hden, ?_⟩
    simp [div_eq_mul_inv, mul_right_comm]

theorem unitsOf_spec (p : Precision) (d : Decimal) : 0 < (unitsOf p d.digits d.exponent).2 ∧
    ((unitsOf p d.digits d.exponent).1 / (unitsOf p d.digits d.exponent).2 : ℚ) =
      d.amount * p.one := by
  obtain ⟨digits, e⟩ := d
  simp only [unitsOf, amount]
  split
  · obtain ⟨k, rfl⟩ := Int.eq_ofNat_of_zero_le ‹_›
    exact ⟨Nat.one_pos, by simp⟩
  · obtain ⟨k, hk⟩ := Int.eq_ofNat_of_zero_le (a := -e) (by omega)
    obtain rfl : e = -k := by omega
    refine ⟨Nat.pow_pos (by decide), ?_⟩
    simp [div_eq_mul_inv, mul_right_comm]

end Grids

/-! ### Rounding to so many digits -/

theorem amount_carry (count : Nat) (e : Int) :
    amount ⟨10 ^ count, e + 1⟩ = amount ⟨10 ^ (count + 1), e⟩ := by
  have hten : (10 : ℚ) ≠ 0 := by norm_num
  simp only [amount]
  push_cast
  rw [zpow_add_one₀ hten]
  ring

/-- A quotient that is rounded on a decimal grid is off by at most half a unit of it. -/
theorem abs_amount_onGrid_sub_le (num : Nat) {den : Nat} (hden : 0 < den) (e : Int) :
    |amount ⟨roundHalfEven (onGrid num den e).1 (onGrid num den e).2, e⟩ - num / den| ≤
      10 ^ e / 2 := by
  have hunit : (0 : ℚ) < 10 ^ e := by positivity
  have ⟨hgrid, hquotient⟩ := onGrid_spec num hden e
  have hround := abs_roundHalfEven_sub_le (onGrid num den e).1 hgrid
  rw [hquotient] at hround
  generalize roundHalfEven (onGrid num den e).1 (onGrid num den e).2 = digits at hround ⊢
  have hscaled : amount ⟨digits, e⟩ - num / den = (digits - num / den / 10 ^ e) * 10 ^ e := by
    rw [amount, sub_mul, div_mul_cancel₀ _ hunit.ne']
  rw [hscaled, abs_mul, abs_of_pos hunit]
  calc |(digits : ℚ) - num / den / 10 ^ e| * 10 ^ e ≤ 1 / 2 * 10 ^ e := by gcongr
    _ = 10 ^ e / 2 := by ring

section Rounded

variable {num den : Nat} (count : Nat)

/-- A quotient is in one of the decades whose grids have so many digits. -/
theorem exists_decade (hnum : 0 < num) (hden : 0 < den) : ∃ e : Int,
    (10 : ℚ) ^ e * 10 ^ count ≤ num / den ∧ (num / den : ℚ) < 10 ^ e * 10 ^ (count + 1) := by
  have hten : (10 : ℚ) ≠ 0 := by norm_num
  have ⟨hlow, hhigh⟩ := magnitude_spec hnum hden
  refine ⟨magnitude num den - count, ?_, ?_⟩ <;> rw [← zpow_natCast, ← zpow_add₀ hten]
  · rwa [sub_add_cancel]
  · rwa [Nat.cast_succ, ← add_assoc, sub_add_cancel]

/-- In its decade, a quotient is rounded to the nearest point of the grid. Where that carries through
all digits, one is left with zeros behind it. -/
theorem exists_rounded (hnum : 0 < num) (hden : 0 < den) {e : Int}
    (hlow : (10 : ℚ) ^ e * 10 ^ count ≤ num / den)
    (hhigh : (num / den : ℚ) < 10 ^ e * 10 ^ (count + 1)) :
    ∃ digits, |amount ⟨digits, e⟩ - num / den| ≤ 10 ^ e / 2 ∧
      rounded (count + 1) num den =
        if digits = 10 ^ (count + 1) then ⟨10 ^ count, e + 1⟩ else ⟨digits, e⟩ := by
  have hten : (10 : ℚ) ≠ 0 := by norm_num
  rw [← zpow_natCast, ← zpow_add₀ hten] at hlow hhigh
  rw [Nat.cast_succ, ← add_assoc] at hhigh
  have hexponent : magnitude num den - (count : Int) = e := by
    rw [magnitude_eq hnum hden hlow hhigh, add_sub_cancel_right]
  refine ⟨_, abs_amount_onGrid_sub_le num hden e, ?_⟩
  simp only [rounded, Nat.add_sub_cancel, hexponent]

theorem amount_ite_carry (digits : Nat) (e : Int) :
    amount (if digits = 10 ^ (count + 1) then ⟨10 ^ count, e + 1⟩ else ⟨digits, e⟩) =
      amount ⟨digits, e⟩ := by
  split
  · rename_i hcarry
    rw [amount_carry, hcarry]
  · rfl

/-- So many digits of a quotient are off by at most half a unit of the last one, and the first of
them is not zero. -/
theorem rounded_spec (hnum : 0 < num) (hden : 0 < den) :
    10 ^ count ≤ (rounded (count + 1) num den).digits ∧
      (rounded (count + 1) num den).digits < 10 ^ (count + 1) ∧
      |(rounded (count + 1) num den).amount - num / den| * (2 * 10 ^ count) ≤ num / den := by
  obtain ⟨e, hlow, hhigh⟩ := exists_decade count hnum hden
  obtain ⟨digits, hhalf, hrounded⟩ := exists_rounded count hnum hden hlow hhigh
  have hunit : (0 : ℚ) < 10 ^ e := by positivity
  have ⟨hbelow, habove⟩ := abs_le.1 hhalf
  rw [amount] at hbelow habove
  have hleast : 10 ^ count ≤ digits := by
    have hlt : (10 ^ count : ℚ) < digits + 1 := lt_of_mul_lt_mul_right (by linarith) hunit.le
    exact Nat.lt_succ_iff.1 (by exact_mod_cast hlt)
  have hmost : digits ≤ 10 ^ (count + 1) := by
    have hlt : (digits : ℚ) < 10 ^ (count + 1) + 1 :=
      lt_of_mul_lt_mul_right (by linarith) hunit.le
    exact Nat.lt_succ_iff.1 (by exact_mod_cast hlt)
  have herror : |amount ⟨digits, e⟩ - num / den| * (2 * 10 ^ count) ≤ num / den := by
    calc |amount ⟨digits, e⟩ - num / den| * (2 * 10 ^ count)
        ≤ 10 ^ e / 2 * (2 * 10 ^ count) := by gcongr
      _ = 10 ^ e * 10 ^ count := by ring
      _ ≤ num / den := hlow
  rw [hrounded, amount_ite_carry]
  split
  · exact ⟨Nat.le_refl _, Nat.pow_lt_pow_right (by decide) (Nat.lt_succ_self count), herror⟩
  · exact ⟨hleast, Nat.lt_of_le_of_ne hmost ‹_›, herror⟩

/-- Rounding does not pass a number of so many digits that the quotient does not pass by half a
unit. -/
theorem amount_rounded_le (hnum : 0 < num) (hden : 0 < den) {k : Nat} (hleast : 10 ^ count ≤ k)
    (hmost : k < 10 ^ (count + 1)) {e : Int} (h : (num / den : ℚ) < (k + 1 / 2) * 10 ^ e) :
    (rounded (count + 1) num den).amount ≤ amount ⟨k, e⟩ := by
  obtain ⟨m, hlow, hhigh⟩ := exists_decade count hnum hden
  obtain ⟨digits, hhalf, hrounded⟩ := exists_rounded count hnum hden hlow hhigh
  rw [hrounded, amount_ite_carry]
  have hten : (1 : ℚ) < 10 := by norm_num
  have hunit : (0 : ℚ) < 10 ^ m := by positivity
  have hunit' : (0 : ℚ) < 10 ^ e := by positivity
  have hleast' : (10 ^ count : ℚ) ≤ k := by exact_mod_cast hleast
  have hmost' : (k + 1 : ℚ) ≤ 10 ^ (count + 1) := by exact_mod_cast hmost
  have ⟨hbelow, habove⟩ := abs_le.1 hhalf
  simp only [amount] at hbelow habove ⊢
  rcases Int.lt_trichotomy m e with hlt | rfl | hgt
  · -- the grid is finer, and it ends where the other one begins
    have hstep : (10 : ℚ) ^ m * 10 ≤ 10 ^ e := by
      rw [← zpow_add_one₀ (by norm_num)]
      exact zpow_le_zpow_right₀ hten.le (by omega)
    have hdigits : (digits : ℚ) ≤ 10 ^ (count + 1) := by
      have hlt : (digits : ℚ) < 10 ^ (count + 1) + 1 :=
        lt_of_mul_lt_mul_right (by linarith) hunit.le
      exact_mod_cast Nat.lt_succ_iff.1 (by exact_mod_cast hlt)
    calc (digits : ℚ) * 10 ^ m ≤ 10 ^ (count + 1) * 10 ^ m := by gcongr
      _ = 10 ^ count * (10 ^ m * 10) := by ring
      _ ≤ k * 10 ^ e := by gcongr
  · have hlt : (digits : ℚ) < k + 1 := lt_of_mul_lt_mul_right (by linarith) hunit.le
    have hdigits : digits ≤ k := Nat.lt_succ_iff.1 (by exact_mod_cast hlt)
    gcongr
  · -- the quotient would be above the end of this grid
    have hstep : (10 : ℚ) ^ e * 10 ≤ 10 ^ m := by
      rw [← zpow_add_one₀ (by norm_num)]
      exact zpow_le_zpow_right₀ hten.le (by omega)
    have hpass : (num / den : ℚ) < num / den :=
      calc (num / den : ℚ) < (k + 1 / 2) * 10 ^ e := h
        _ ≤ 10 ^ (count + 1) * 10 ^ e := by gcongr; linarith
        _ = 10 ^ e * 10 * 10 ^ count := by ring
        _ ≤ 10 ^ m * 10 ^ count := by gcongr
        _ ≤ num / den := hlow
    exact absurd hpass (lt_irrefl _)

/-- So it does not pass a limit that such a number keeps to. -/
theorem amount_rounded_mul_le (hnum : 0 < num) (hden : 0 < den) {k e limit : Nat}
    (hleast : 10 ^ count ≤ k) (hmost : k < 10 ^ (count + 1))
    (hbelow : 2 * num < (2 * k + 1) * 10 ^ e * den) (hfits : k * 10 ^ e * den ≤ limit) :
    (rounded (count + 1) num den).amount * den ≤ limit := by
  have hden' : (0 : ℚ) < den := Nat.cast_pos.2 hden
  have hlt : (num / den : ℚ) < (k + 1 / 2) * 10 ^ (e : Int) := by
    have hcast : (2 * num : ℚ) < (2 * k + 1) * 10 ^ e * den := by exact_mod_cast hbelow
    rw [div_lt_iff₀ hden', zpow_natCast]
    linarith
  calc (rounded (count + 1) num den).amount * den
      ≤ amount ⟨k, e⟩ * den := by
        gcongr
        exact amount_rounded_le count hnum hden hleast hmost hlt
    _ ≤ limit := by
        rw [amount, zpow_natCast]
        exact_mod_cast hfits

theorem eq_of_amount_close {a b : Nat} {e : Int}
    (h : |amount ⟨a, e⟩ - amount ⟨b, e⟩| < 10 ^ e) : a = b := by
  have hunit : (0 : ℚ) < 10 ^ e := by positivity
  have ⟨hlow, hhigh⟩ := abs_lt.1 h
  simp only [amount] at hlow hhigh
  have hle : (a : ℚ) < b + 1 := lt_of_mul_lt_mul_right (by linarith) hunit.le
  have hge : (b : ℚ) < a + 1 := lt_of_mul_lt_mul_right (by linarith) hunit.le
  have hle' : a < b + 1 := by exact_mod_cast hle
  have hge' : b < a + 1 := by exact_mod_cast hge
  omega

/-- What is close enough to a number of so many digits is rounded to it, also where it is below a
power of ten and has the finer grid of the decade before. -/
theorem rounded_eq_of_close (hnum : 0 < num) (hden : 0 < den) {d : Decimal}
    (hleast : 10 ^ count ≤ d.digits) (hmost : d.digits < 10 ^ (count + 1))
    (h : |(num / den : ℚ) - d.amount| * (2 * 10 ^ (count + 2)) ≤ d.amount) :
    rounded (count + 1) num den = d := by
  obtain ⟨k, e⟩ := d
  dsimp only at hleast hmost
  have hunit : (0 : ℚ) < 10 ^ e := by positivity
  have hmost' : (k + 1 : ℚ) ≤ 10 ^ (count + 1) := by exact_mod_cast hmost
  have hnear : |(num / den : ℚ) - amount ⟨k, e⟩| < 10 ^ e / 20 := by
    have hpower : (0 : ℚ) < 10 ^ (count + 1) := by positivity
    have hless : amount ⟨k, e⟩ < 10 ^ (count + 1) * 10 ^ e := by
      rw [amount]
      exact mul_lt_mul_of_pos_right (by linarith) hunit
    refine lt_of_mul_lt_mul_left ?_ hpower.le
    rw [pow_succ _ (count + 1)] at h
    linarith
  have ⟨hbelow, habove⟩ := abs_lt.1 hnear
  by_cases hsame : (10 : ℚ) ^ e * 10 ^ count ≤ num / den
  · have hend : (num / den : ℚ) < 10 ^ e * 10 ^ (count + 1) := by
      have hle := mul_le_mul_of_nonneg_right hmost' hunit.le
      rw [amount] at habove
      linarith
    obtain ⟨digits, hhalf, hrounded⟩ := exists_rounded count hnum hden hsame hend
    have hdigits : digits = k := by
      refine eq_of_amount_close (e := e) ((abs_sub_le _ (num / den : ℚ) _).trans_lt ?_)
      linarith
    rw [hrounded, hdigits, if_neg hmost.ne]
  · -- the number is the power of ten itself, which the finer grid reaches by a carry
    have hpower : k = 10 ^ count := by
      refine Nat.le_antisymm (Nat.lt_succ_iff.1 ?_) hleast
      have hlt : (k : ℚ) < 10 ^ count + 1 := by
        rw [amount] at hbelow
        exact lt_of_mul_lt_mul_right (by linarith) hunit.le
      exact_mod_cast hlt
    obtain ⟨m, rfl⟩ : ∃ m, e = m + 1 := ⟨e - 1, (sub_add_cancel e 1).symm⟩
    have hstep : (10 : ℚ) ^ (m + 1) = 10 ^ m * 10 := zpow_add_one₀ (by norm_num) m
    have hunit' : (0 : ℚ) < 10 ^ m := by positivity
    have hone : (1 : ℚ) ≤ 10 ^ count := one_le_pow₀ (by norm_num)
    rw [hpower, amount_carry] at hnear hbelow
    rw [hstep] at hnear hbelow hsame
    have hlow : (10 : ℚ) ^ m * 10 ^ count ≤ num / den := by
      have hle := mul_le_mul_of_nonneg_left hone hunit'.le
      rw [amount] at hbelow
      push_cast at hbelow
      rw [pow_succ] at hbelow
      linarith
    have hhigh : (num / den : ℚ) < 10 ^ m * 10 ^ (count + 1) := by
      rw [pow_succ]
      linarith
    obtain ⟨digits, hhalf, hrounded⟩ := exists_rounded count hnum hden hlow hhigh
    have hdigits : digits = 10 ^ (count + 1) := by
      refine eq_of_amount_close (e := m) ((abs_sub_le _ (num / den : ℚ) _).trans_lt ?_)
      linarith
    rw [hrounded, if_pos hdigits, hpower]

end Rounded

/-! ### Codes -/

theorem leading_spec {d : Decimal} (hd : 0 < d.digits) :
    (10 : ℚ) ^ d.leading ≤ d.amount ∧ d.amount < 10 ^ (d.leading + 1) := by
  obtain ⟨k, hk, hlow, hhigh⟩ := exists_length_eq hd
  have hten : (10 : ℚ) ≠ 0 := by norm_num
  have hunit : (0 : ℚ) < 10 ^ d.exponent := by positivity
  have hleading : d.leading = k + d.exponent := by rw [leading, hk]; omega
  have hnext : d.leading + 1 = (k + 1 : Nat) + d.exponent := by omega
  rw [hnext, hleading, zpow_add₀ hten, zpow_add₀ hten, zpow_natCast, zpow_natCast, amount]
  constructor
  · exact mul_le_mul_of_nonneg_right (by exact_mod_cast hlow) hunit.le
  · exact mul_lt_mul_of_pos_right (by exact_mod_cast hhigh) hunit

/-- Within the reach of all formats, the code of a decimal is the nearest one to its value. -/
theorem exists_toCode_eq (p : Precision) {d : Decimal} (hd : 0 < d.digits)
    (hlow : (10 : ℚ) ^ (-reach) ≤ d.amount) (hhigh : d.amount ≤ 10 ^ reach) :
    ∃ num den : Nat, 0 < den ∧ (num / den : ℚ) = d.amount * p.one ∧
      d.toCode p = p.nearest num den := by
  have ⟨hpower, hnext⟩ := leading_spec hd
  have hten : (1 : ℚ) < 10 := by norm_num
  have hleast : -reach < d.leading + 1 := (zpow_lt_zpow_iff_right₀ hten).1 (hlow.trans_lt hnext)
  have hmost : d.leading ≤ reach := (zpow_le_zpow_iff_right₀ hten).1 (hpower.trans hhigh)
  have ⟨hden, hvalue⟩ := unitsOf_spec p d
  refine ⟨_, _, hden, hvalue, ?_⟩
  rw [toCode, if_neg (by omega), if_neg (by omega)]

end Decimal

/-! ### Scalars -/

namespace Scalar

variable {x : Scalar .double}

/-- The words and the zeros are read as what they were written for; a NaN loses its sign. -/
theorem ofText?_scientific_of_isNaN (hnan : x.isNaN = true) (p : Precision) :
    (ofText? x.scientific : Option (Scalar p)) = some (.ofDouble (nan false)) := by
  have htext : x.scientific = "NaN" := by simp [scientific, writeWith, hnan]
  have hread : Literal.read "NaN".toList = some (.nan false) := by decide
  rw [htext, ofText?, hread]
  rfl

theorem ofText?_scientific_of_isInfinite (hnan : x.isNaN = false) (hinfinite : x.isInfinite = true)
    (p : Precision) :
    (ofText? x.scientific : Option (Scalar p)) = some (.ofDouble (infinite x.negative)) := by
  have htext : x.scientific = x.signText ++ "inf" := by
    simp [scientific, writeWith, hnan, hinfinite]
  have hread : ∀ negative : Bool, Literal.read ((if negative then "-" else "") ++ "inf").toList =
      some (.infinite negative) := by decide
  rw [htext, ofText?, signText, hread]
  rfl

theorem ofText?_scientific_of_isZero (hzero : x.code = 0) (p : Precision) :
    (ofText? x.scientific : Option (Scalar p)) = some (.ofDouble (signedZero x.negative)) := by
  have htext : x.scientific = x.signText ++ "0.000000000000e0" := by
    simp [scientific, writeWith, isNaN, isInfinite, isZero, hzero, Precision.double.infinity_pos.ne]
  have hread : ∀ negative : Bool,
      Literal.read ((if negative then "-" else "") ++ "0.000000000000e0").toList =
        some (.number negative ⟨0, -12⟩) := by decide
  rw [htext, ofText?, signText, hread]
  rfl

theorem IsProper.scientific_eq (hx : x.IsProper) :
    x.scientific = x.signText ++ NumberStyle.writeScientific false
      (Decimal.rounded 13 (Precision.double.units x.code) Precision.double.one) := by
  simp [scientific, writeWith, hx.isNaN, hx.isInfinite, hx.isZero]

/-- The text of a proper scalar says its thirteen digits, and what is read is rounded from them. -/
theorem IsProper.exists_ofText?_rounded (hx : x.IsProper) : ∃ num den : Nat, 0 < den ∧
    (num / den : ℚ) = (Decimal.rounded 13 (Precision.double.units x.code)
      Precision.double.one).amount * Precision.double.one ∧
    ∀ p, (ofText? x.scientific : Option (Scalar p)) =
      some (.ofDouble (.round x.negative num den)) := by
  obtain ⟨hleast, -, herror⟩ := Decimal.rounded_spec 12 hx.units_pos Precision.double.one_pos
  have hdigits := Nat.lt_of_lt_of_le (Nat.pow_pos (by decide)) hleast
  have hscientific := hx.scientific_eq
  generalize Decimal.rounded (12 + 1) (Precision.double.units x.code) Precision.double.one = d
    at hdigits herror hscientific ⊢
  have ⟨hlow, hhigh⟩ := half_le_of_close (by norm_num) herror
  have ⟨hleast, hmost⟩ := Precision.double_bounds hx.finite hx.nonzero
  obtain ⟨num, den, hden, hvalue, hcode⟩ := Decimal.exists_toCode_eq .double hdigits
    (hleast.trans hlow) (hhigh.trans hmost)
  refine ⟨num, den, hden, hvalue, fun p => ?_⟩
  obtain ⟨first, rest, hbody, hfirst⟩ := d.head_writeScientific
  have hread := Decimal.read_writeScientific_of_pos hdigits
  rw [hbody] at hread
  rw [ofText?, hscientific, String.toList_append, hbody, signText,
    Literal.read_signed hread hfirst x.negative]
  simp only [Option.map_some, ofLiteral, round, hcode]

/-- In units, thirteen digits are close to what they are of. -/
theorem IsProper.abs_rounded_sub_le (hx : x.IsProper) :
    |(Decimal.rounded 13 (Precision.double.units x.code) Precision.double.one).amount *
        Precision.double.one - Precision.double.units x.code| * (2 * 10 ^ 12) ≤
      Precision.double.units x.code := by
  have hone : (0 : ℚ) < Precision.double.one := Nat.cast_pos.2 Precision.double.one_pos
  obtain ⟨-, -, herror⟩ := Decimal.rounded_spec 12 hx.units_pos Precision.double.one_pos
  generalize (Decimal.rounded (12 + 1) (Precision.double.units x.code)
    Precision.double.one).amount = a at herror ⊢
  have hscaled : a * Precision.double.one - Precision.double.units x.code =
      (a - Precision.double.units x.code / Precision.double.one) * Precision.double.one := by
    rw [sub_mul, div_mul_cancel₀ _ hone.ne']
  rw [hscaled, abs_mul, abs_of_pos hone, mul_right_comm]
  exact (le_div_iff₀ hone).1 herror

/-- So the text of a proper scalar says a quantity that is close to it. -/
theorem IsProper.exists_ofText?_scientific (hx : x.IsProper) : ∃ num den : Nat, 0 < den ∧
    |(num / den : ℚ) - Precision.double.units x.code| * (2 * 10 ^ 12) ≤
      Precision.double.units x.code ∧
    ∀ p, (ofText? x.scientific : Option (Scalar p)) =
      some (.ofDouble (.round x.negative num den)) := by
  obtain ⟨num, den, hden, hvalue, htext⟩ := hx.exists_ofText?_rounded
  refine ⟨num, den, hden, ?_, htext⟩
  rw [hvalue]
  exact hx.abs_rounded_sub_le

end Scalar
end CowArrays
