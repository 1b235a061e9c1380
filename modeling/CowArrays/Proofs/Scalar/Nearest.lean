import CowArrays.Proofs.Scalar.Narrowing
import Mathlib.Algebra.Order.Field.Rat
import Mathlib.Tactic.FieldSimp
import Mathlib.Tactic.GCongr
import Mathlib.Tactic.Linarith
import Mathlib.Tactic.Positivity
import Mathlib.Tactic.Ring

/-!
Rounding to the nearest scalar, in exact arithmetic. A quantity is rounded to the code whose
midpoints enclose it. The distance of neighbours is a part of their size, so what is close enough to a
scalar is rounded back to it, and what rounding is off by is a part of the quantity.
-/

namespace CowArrays

theorem half_le_of_close {x y c : ℚ} (hc : 2 ≤ c) (h : |y - x| * c ≤ x) :
    x / 2 ≤ y ∧ y ≤ 2 * x := by
  have hle : |y - x| * 2 ≤ x := (mul_le_mul_of_nonneg_left hc (abs_nonneg _)).trans h
  have ⟨hlow, hhigh⟩ := abs_le.1 (le_refl |y - x|)
  have hnonneg := abs_nonneg (y - x)
  constructor <;> linarith

theorem abs_roundHalfEven_sub_le (num : Nat) {den : Nat} (hden : 0 < den) :
    |(roundHalfEven num den : ℚ) - num / den| ≤ 1 / 2 := by
  obtain ⟨q, m, hm, rfl⟩ : ∃ q m, m < den ∧ num = den * q + m :=
    ⟨num / den, num % den, Nat.mod_lt num hden, (Nat.div_add_mod num den).symm⟩
  have hdiv : (den * q + m) / den = q := by
    rw [Nat.mul_add_div hden, Nat.div_eq_of_lt hm, Nat.add_zero]
  have hmod : (den * q + m) % den = m := by rw [Nat.mul_add_mod, Nat.mod_eq_of_lt hm]
  -- the rounded quotient is the floor or the number above it, whichever is not further away
  have hcases : (roundHalfEven (den * q + m) den = q ∧ 2 * m ≤ den) ∨
      (roundHalfEven (den * q + m) den = q + 1 ∧ den ≤ 2 * m) := by
    simp only [roundHalfEven, hdiv, hmod]
    grind
  have hpos : (0 : ℚ) < den := by exact_mod_cast hden
  have hquotient : ((den * q + m : Nat) : ℚ) / den = q + m / den := by
    push_cast
    field_simp
  rw [hquotient, abs_le]
  rcases hcases with ⟨hround, hle⟩ | ⟨hround, hle⟩ <;> rw [hround]
  · have hhalf : (m : ℚ) / den ≤ 1 / 2 := by
      rw [div_le_div_iff₀ hpos two_pos]
      exact_mod_cast (by omega)
    have hnonneg : (0 : ℚ) ≤ m / den := by positivity
    constructor <;> linarith
  · have hhalf : (1 : ℚ) / 2 ≤ m / den := by
      rw [div_le_div_iff₀ two_pos hpos]
      exact_mod_cast (by omega)
    have hone : (m : ℚ) / den ≤ 1 := by
      rw [div_le_one hpos]
      exact_mod_cast hm.le
    push_cast
    constructor <;> linarith

namespace Precision

variable (p : Precision)

/-- Units of a significand at a scale. It has all its bits unless the scale is the least. -/
theorem units_scaled {s r : Nat} (hr : r ≤ 2 * 2 ^ p.fractionBits)
    (hs : s = 0 ∨ 2 ^ p.fractionBits ≤ r) :
    p.units (s * 2 ^ p.fractionBits + r) = r * 2 ^ s := by
  have hpos : 0 < 2 ^ p.fractionBits := Nat.two_pow_pos _
  rcases Nat.lt_or_ge r (2 ^ p.fractionBits) with hsmall | hlarge
  · obtain rfl : s = 0 := by omega
    rw [Nat.zero_mul, Nat.zero_add, units_subnormal p hsmall, Nat.pow_zero, Nat.mul_one]
  · obtain ⟨m, rfl⟩ := Nat.exists_eq_add_of_le hlarge
    rw [← Nat.add_assoc, ← Nat.succ_mul]
    rcases Nat.lt_or_ge m (2 ^ p.fractionBits) with hm | hm
    · exact units_normal p hm
    · -- the next power of two has the next exponent and an empty fraction
      obtain rfl : m = 2 ^ p.fractionBits := by omega
      have hcarry := units_normal p (k := s + 1) hpos
      rw [Nat.add_zero, Nat.add_zero, Nat.succ_mul] at hcarry
      rw [hcarry, Nat.add_zero, Nat.pow_succ, Nat.mul_comm (2 ^ s), ← Nat.mul_assoc,
        Nat.mul_comm (2 ^ p.fractionBits), ← Nat.two_mul]

theorem exists_scaled (code : Nat) : ∃ s r, code = s * 2 ^ p.fractionBits + r ∧
    r < 2 * 2 ^ p.fractionBits ∧ (s = 0 ∨ 2 ^ p.fractionBits ≤ r) := by
  have hpos : 0 < 2 ^ p.fractionBits := Nat.two_pow_pos _
  have hcode := Nat.div_add_mod' code (2 ^ p.fractionBits)
  have hmod := Nat.mod_lt code hpos
  rcases Nat.eq_zero_or_pos (code / 2 ^ p.fractionBits) with hzero | hk
  · exact ⟨0, code, by omega, by rw [hzero] at hcode; omega, .inl rfl⟩
  · obtain ⟨k, hk⟩ := Nat.exists_eq_add_of_le hk
    rw [hk, Nat.add_comm 1 k, Nat.succ_mul] at hcode
    exact ⟨k, 2 ^ p.fractionBits + code % 2 ^ p.fractionBits, by omega, by omega, .inr (by omega)⟩

/-- The code behind a significand at a scale is a whole step of this scale further on. -/
theorem units_scaled_succ {s r : Nat} (hr : r ≤ 2 * 2 ^ p.fractionBits)
    (hs : s = 0 ∨ 2 ^ p.fractionBits ≤ r) :
    (r + 1) * 2 ^ s ≤ p.units (s * 2 ^ p.fractionBits + r + 1) := by
  rcases Nat.lt_or_ge r (2 * 2 ^ p.fractionBits) with hlt | hge
  · rw [Nat.add_assoc, p.units_scaled (by omega) (by omega)]
  · -- the significand has carried, so its code has the next scale
    obtain rfl : r = 2 * 2 ^ p.fractionBits := by omega
    have hpos : 0 < 2 ^ p.fractionBits := Nat.two_pow_pos _
    have hcarry : s * 2 ^ p.fractionBits + 2 * 2 ^ p.fractionBits + 1 =
        (s + 1) * 2 ^ p.fractionBits + (2 ^ p.fractionBits + 1) := by
      rw [Nat.succ_mul s]
      omega
    rw [hcarry, p.units_scaled (by omega) (by omega), Nat.pow_succ, Nat.mul_comm (2 ^ s),
      ← Nat.mul_assoc]
    exact Nat.mul_le_mul_right _ (by omega)

/-- Neighbours are apart by a part of their size, which the bits of a significand limit. -/
theorem units_succ_le (code : Nat) : (p.units (code + 1) : ℚ) ≤
    2 * 2 ^ p.fractionBits * (p.units (code + 1) - p.units code) := by
  obtain ⟨s, r, rfl, hr, hs⟩ := p.exists_scaled code
  rw [Nat.add_assoc, p.units_scaled (s := s) (r := r + 1) (by omega) (by omega),
    p.units_scaled hr.le hs]
  have hle : (r + 1 : ℚ) ≤ 2 * 2 ^ p.fractionBits := by exact_mod_cast hr
  push_cast
  calc (r + 1 : ℚ) * 2 ^ s ≤ 2 * 2 ^ p.fractionBits * 2 ^ s := by gcongr
    _ = 2 * 2 ^ p.fractionBits * ((r + 1) * 2 ^ s - r * 2 ^ s) := by ring

theorem one_pos : 0 < p.one := Nat.two_pow_pos _

theorem units_zero : p.units 0 = 0 := units_subnormal p (Nat.two_pow_pos _)

theorem units_pos {code : Nat} (h : 0 < code) : 0 < p.units code :=
  Nat.zero_lt_of_lt (p.units_strictMono h)

/-- The leading bit of a number finds the scale at which its significand has all its bits. -/
theorem scale_spec (n : Nat) : n < 2 * 2 ^ p.fractionBits * 2 ^ (Nat.log2 n - p.fractionBits) ∧
    (Nat.log2 n - p.fractionBits = 0 ∨
      2 ^ p.fractionBits * 2 ^ (Nat.log2 n - p.fractionBits) ≤ n) := by
  rw [Nat.mul_assoc, ← Nat.pow_add]
  constructor
  · rw [Nat.mul_comm, ← Nat.pow_succ]
    exact Nat.lt_of_lt_of_le Nat.lt_log2_self (Nat.pow_le_pow_right two_pos (by omega))
  · rcases Nat.eq_zero_or_pos (Nat.log2 n - p.fractionBits) with hzero | hpos
    · exact .inl hzero
    · have hne : n ≠ 0 := by
        rintro rfl
        simp at hpos
      exact .inr ((Nat.pow_le_pow_right two_pos (by omega)).trans (Nat.log2_self_le hne))

/-- Rounding a quantity finds the scale at which its integer part is a significand, and the nearest
significand there. -/
theorem exists_nearest (num : Nat) {den : Nat} (hden : 0 < den) : ∃ s r : Nat,
    p.nearest num den = min (s * 2 ^ p.fractionBits + r) p.infinity ∧
      r ≤ 2 * 2 ^ p.fractionBits ∧
      (s = 0 ∨ 2 ^ p.fractionBits ≤ r ∧ (2 ^ p.fractionBits * 2 ^ s : ℚ) ≤ num / den) ∧
      |(r * 2 ^ s : ℚ) - num / den| ≤ 2 ^ s / 2 := by
  have ⟨hlt, hleast⟩ := p.scale_spec (num / den)
  obtain ⟨s, hs⟩ : ∃ s, Nat.log2 (num / den) - p.fractionBits = s := ⟨_, rfl⟩
  rw [hs] at hlt hleast
  have hfloor : num / (den * 2 ^ s) = num / den / 2 ^ s := (Nat.div_div_eq_div_mul _ _ _).symm
  have hscale : 0 < 2 ^ s := Nat.two_pow_pos s
  refine ⟨s, roundHalfEven num (den * 2 ^ s), by rw [nearest, hs], ?_, hleast.imp_right ?_, ?_⟩
  · have hdiv : num / den / 2 ^ s < 2 * 2 ^ p.fractionBits := Nat.div_lt_of_lt_mul (by linarith)
    have hle := roundHalfEven_le num (den * 2 ^ s)
    rw [hfloor] at hle
    omega
  · intro hle
    constructor
    · refine Nat.le_trans ?_ (le_roundHalfEven num (den * 2 ^ s))
      rw [hfloor]
      exact (Nat.le_div_iff_mul_le hscale).2 hle
    · have hnum : 2 ^ p.fractionBits * 2 ^ s * den ≤ num := (Nat.le_div_iff_mul_le hden).1 hle
      rw [le_div_iff₀ (by exact_mod_cast hden)]
      exact_mod_cast hnum
  · have hround := abs_roundHalfEven_sub_le num (Nat.mul_pos hden hscale)
    have hscale' : (0 : ℚ) < 2 ^ s := by positivity
    have hmul := mul_le_mul_of_nonneg_right hround hscale'.le
    rw [← abs_of_pos hscale', ← abs_mul, abs_of_pos hscale', sub_mul] at hmul
    push_cast at hmul
    rw [← div_div, div_mul_cancel₀ _ hscale'.ne'] at hmul
    linarith

/-- Were there no end to the codes, a quantity would be rounded to one whose midpoints enclose it.
The error is relative to the quantity unless this is below all normal scalars. -/
theorem exists_enclosed (num : Nat) {den : Nat} (hden : 0 < den) : ∃ code : Nat,
    p.nearest num den = min code p.infinity ∧
      (0 < code → (p.units (code - 1) + p.units code : ℚ) ≤ 2 * (num / den)) ∧
      2 * (num / den : ℚ) ≤ p.units code + p.units (code + 1) ∧
      ((2 ^ p.fractionBits : ℚ) ≤ num / den →
        |(p.units code : ℚ) - num / den| * (2 * 2 ^ p.fractionBits) ≤ num / den) := by
  obtain ⟨s, r, hnearest, hr, hs, herror⟩ := p.exists_nearest num hden
  have hcode : (p.units (s * 2 ^ p.fractionBits + r) : ℚ) = r * 2 ^ s := by
    rw [p.units_scaled hr (hs.imp_right And.left)]
    push_cast
    rfl
  have hscale : (0 : ℚ) < 2 ^ s := by positivity
  have ⟨hlow, hhigh⟩ := abs_le.1 herror
  refine ⟨_, hnearest, fun hpos => ?_, ?_, fun hnormal => ?_⟩ <;> rw [hcode]
  · have hprev : p.units (s * 2 ^ p.fractionBits + r - 1) ≤ p.units (s * 2 ^ p.fractionBits + r) :=
      p.units_strictMono.monotone (Nat.sub_le _ 1)
    have hprev' : (p.units (s * 2 ^ p.fractionBits + r - 1) : ℚ) ≤ r * 2 ^ s := by
      rw [← hcode]
      exact_mod_cast hprev
    by_cases hleast : s ≠ 0 ∧ r = 2 ^ p.fractionBits
    · -- the least significand of a scale was rounded down to
      obtain ⟨hne, rfl⟩ := hleast
      have hle := (hs.resolve_left hne).2
      push_cast at hprev' ⊢
      linarith
    · have hne : r ≠ 0 := by
        rintro rfl
        rcases hs with rfl | ⟨hle, -⟩
        · simp at hpos
        · exact absurd hle (Nat.not_le.2 (Nat.two_pow_pos _))
      obtain ⟨r, rfl⟩ := Nat.exists_eq_add_one_of_ne_zero hne
      rw [← Nat.add_assoc, Nat.add_sub_cancel, p.units_scaled (by omega) (by omega)]
      push_cast at hhigh ⊢
      linarith
  · have hnext : (r + 1 : ℚ) * 2 ^ s ≤ p.units (s * 2 ^ p.fractionBits + r + 1) := by
      exact_mod_cast p.units_scaled_succ hr (hs.imp_right And.left)
    linarith
  · have hle : (2 ^ p.fractionBits * 2 ^ s : ℚ) ≤ num / den := by
      rcases hs with rfl | ⟨-, hle⟩
      · simpa using hnormal
      · exact hle
    calc |(r : ℚ) * 2 ^ s - num / den| * (2 * 2 ^ p.fractionBits)
        ≤ 2 ^ s / 2 * (2 * 2 ^ p.fractionBits) := by gcongr
      _ = 2 ^ p.fractionBits * 2 ^ s := by ring
      _ ≤ num / den := hle

section Nearest

variable {p} {num den code : Nat}

/-- Below the midpoint behind a code, a quantity is rounded to no more than this code. -/
theorem nearest_le_of_lt (hden : 0 < den)
    (h : 2 * (num / den : ℚ) < p.units code + p.units (code + 1)) : p.nearest num den ≤ code := by
  obtain ⟨c, hnearest, hlow, -⟩ := p.exists_enclosed num hden
  rw [hnearest]
  refine Nat.le_trans (Nat.min_le_left _ _) (Nat.le_of_not_lt fun hlt => ?_)
  have hle := hlow (Nat.zero_lt_of_lt hlt)
  have hbefore : p.units code ≤ p.units (c - 1) := p.units_strictMono.monotone (by omega)
  have hcode : p.units (code + 1) ≤ p.units c := p.units_strictMono.monotone hlt
  have hsum : (p.units code + p.units (code + 1) : ℚ) ≤ p.units (c - 1) + p.units c := by
    exact_mod_cast Nat.add_le_add hbefore hcode
  linarith

/-- Above the midpoint behind a code, it is rounded to more. -/
theorem lt_nearest_of_lt (hden : 0 < den) (hcode : code < p.infinity)
    (h : (p.units code + p.units (code + 1) : ℚ) < 2 * (num / den)) :
    code < p.nearest num den := by
  obtain ⟨c, hnearest, -, hhigh, -⟩ := p.exists_enclosed num hden
  rw [hnearest]
  refine Nat.lt_min.2 ⟨Nat.lt_of_not_le fun hle => ?_, hcode⟩
  have hbefore : p.units c ≤ p.units code := p.units_strictMono.monotone hle
  have hbehind : p.units (c + 1) ≤ p.units (code + 1) :=
    p.units_strictMono.monotone (Nat.succ_le_succ hle)
  have hsum : (p.units c + p.units (c + 1) : ℚ) ≤ p.units code + p.units (code + 1) := by
    exact_mod_cast Nat.add_le_add hbefore hbehind
  linarith

/-- What is closer to a finite scalar than half the distance of its neighbours, as a part of its
size, is rounded to it. -/
theorem nearest_eq_of_close (hden : 0 < den) (hcode : code < p.infinity)
    (h : |(num / den : ℚ) - p.units code| * (4 * 2 ^ p.fractionBits) < p.units code) :
    p.nearest num den = code := by
  have ⟨hlow, hhigh⟩ := abs_le.1 (le_refl |(num / den : ℚ) - p.units code|)
  have hhalf {distance : ℚ} (hd : p.units code ≤ 2 * 2 ^ p.fractionBits * distance) :
      2 * |(num / den : ℚ) - p.units code| < distance := by
    have hpos : (0 : ℚ) < 2 * 2 ^ p.fractionBits := by positivity
    refine lt_of_mul_lt_mul_left ?_ hpos.le
    linarith
  have hle : p.nearest num den ≤ code := by
    have hlt : (p.units code : ℚ) ≤ p.units (code + 1) := by
      exact_mod_cast p.units_strictMono.monotone (Nat.le_succ code)
    have hbehind := hhalf (hlt.trans (p.units_succ_le code))
    exact nearest_le_of_lt hden (by linarith)
  cases code with
  | zero => omega
  | succ before =>
    have hbefore := hhalf (p.units_succ_le before)
    exact Nat.le_antisymm hle (lt_nearest_of_lt hden (by omega) (by linarith))

theorem nearest_lt_infinity (hden : 0 < den) (hcode : code < p.infinity)
    (h : (num / den : ℚ) ≤ p.units code) : p.nearest num den < p.infinity := by
  refine Nat.lt_of_le_of_lt (nearest_le_of_lt hden ?_) hcode
  have hlt : (p.units code : ℚ) < p.units (code + 1) := by
    exact_mod_cast p.units_strictMono (Nat.lt_succ_self code)
  linarith

theorem abs_units_nearest_sub_le (hden : 0 < den) (hfinite : p.nearest num den < p.infinity)
    (hnormal : (2 ^ p.fractionBits : ℚ) ≤ num / den) :
    |(p.units (p.nearest num den) : ℚ) - num / den| * (2 * 2 ^ p.fractionBits) ≤ num / den := by
  obtain ⟨c, hnearest, -, -, herror⟩ := p.exists_enclosed num hden
  obtain rfl : p.nearest num den = c := by omega
  exact herror hnormal

/-- A little below all normal scalars the error is still a part of the quantity. -/
theorem abs_units_nearest_sub_le_of_half (hden : 0 < den) (hfinite : p.nearest num den < p.infinity)
    (hhalf : (2 ^ p.fractionBits : ℚ) ≤ 2 * (num / den)) :
    |(p.units (p.nearest num den) : ℚ) - num / den| * 2 ^ p.fractionBits ≤ num / den := by
  obtain ⟨s, r, hnearest, hr, hs, herror⟩ := p.exists_nearest num hden
  have hcode : p.nearest num den = s * 2 ^ p.fractionBits + r := by omega
  have hunits : (p.units (p.nearest num den) : ℚ) = r * 2 ^ s := by
    rw [hcode, p.units_scaled hr (hs.imp_right And.left)]
    push_cast
    rfl
  have hle : (2 ^ p.fractionBits * 2 ^ s : ℚ) ≤ 2 * (num / den) := by
    rcases hs with rfl | ⟨-, hle⟩
    · simpa using hhalf
    · have hscale : (0 : ℚ) < 2 ^ p.fractionBits * 2 ^ s := by positivity
      linarith
  rw [hunits]
  calc |(r : ℚ) * 2 ^ s - num / den| * 2 ^ p.fractionBits
      ≤ 2 ^ s / 2 * 2 ^ p.fractionBits := by gcongr
    _ = 2 ^ p.fractionBits * 2 ^ s / 2 := by ring
    _ ≤ num / den := by linarith

/-- No scalar is closer to a quantity than the one that it is rounded to. -/
theorem abs_units_nearest_sub_le_abs (hden : 0 < den) (hfinite : p.nearest num den < p.infinity)
    (other : Nat) :
    |(p.units (p.nearest num den) : ℚ) - num / den| ≤ |(p.units other : ℚ) - num / den| := by
  obtain ⟨c, hnearest, hlow, hhigh, -⟩ := p.exists_enclosed num hden
  obtain rfl : p.nearest num den = c := by omega
  generalize p.nearest num den = c at hlow hhigh ⊢
  rcases Nat.lt_trichotomy other c with hlt | rfl | hgt
  · -- below, the quantity is behind the midpoint of the code and the one before it
    have hbefore : (p.units other : ℚ) ≤ p.units (c - 1) := by
      exact_mod_cast p.units_strictMono.monotone (Nat.le_sub_one_of_lt hlt)
    have hless : (p.units other : ℚ) ≤ p.units c := by
      exact_mod_cast p.units_strictMono.monotone hlt.le
    have hmid := hlow (Nat.zero_lt_of_lt hlt)
    rw [abs_sub_comm (p.units other : ℚ)]
    exact (abs_le.2 ⟨by linarith, by linarith⟩).trans (le_abs_self _)
  · exact le_refl _
  · have hbehind : (p.units (c + 1) : ℚ) ≤ p.units other := by
      exact_mod_cast p.units_strictMono.monotone (Nat.succ_le_of_lt hgt)
    have hmore : (p.units c : ℚ) ≤ p.units other := by
      exact_mod_cast p.units_strictMono.monotone hgt.le
    exact (abs_le.2 ⟨by linarith, by linarith⟩).trans (le_abs_self _)

theorem nearest_units (hcode : code < p.infinity) : p.nearest (p.units code) 1 = code := by
  rcases Nat.eq_zero_or_pos code with rfl | hpos
  · rw [units_zero, nearest_zero p Nat.one_pos]
  · refine nearest_eq_of_close Nat.one_pos hcode ?_
    have hunits : (0 : ℚ) < p.units code := by exact_mod_cast p.units_pos hpos
    simpa using hunits

end Nearest

end Precision

namespace Scalar

variable {p : Precision} {x : Scalar p}

theorem abs_value (x : Scalar p) : |x.value| = p.units x.code := by
  unfold value
  split
  · rw [abs_neg, Nat.abs_cast]
  · exact Nat.abs_cast _

theorem value_ne_zero (h : x.code ≠ 0) : x.value ≠ 0 := by
  have hunits := p.units_pos (Nat.pos_of_ne_zero h)
  unfold value
  split <;> omega

/-! ### Proper scalars -/

structure IsProper (x : Scalar p) : Prop where
  finite : x.code < p.infinity
  nonzero : x.code ≠ 0

namespace IsProper

theorem units_pos (h : x.IsProper) : 0 < p.units x.code :=
  p.units_pos (Nat.pos_of_ne_zero h.nonzero)

theorem isNaN (h : x.IsProper) : x.isNaN = false :=
  decide_eq_false (Nat.not_lt.2 h.finite.le)

theorem isInfinite (h : x.IsProper) : x.isInfinite = false :=
  beq_eq_false_iff_ne.2 h.finite.ne

theorem isZero (h : x.IsProper) : x.isZero = false := beq_eq_false_iff_ne.2 h.nonzero

end IsProper

theorem cases_proper (x : Scalar p) : x.isNaN = true ∨ (x.isNaN = false ∧ x.isInfinite = true) ∨
    x.code = 0 ∨ x.IsProper := by
  by_cases hzero : x.code = 0
  · exact .inr (.inr (.inl hzero))
  · rcases Nat.lt_trichotomy x.code p.infinity with hlt | heq | hgt
    · exact .inr (.inr (.inr ⟨hlt, hzero⟩))
    · exact .inr (.inl ⟨decide_eq_false heq.not_gt, beq_iff_eq.2 heq⟩)
    · exact .inl (decide_eq_true hgt)

theorem code_lt_infinity (hnan : x.isNaN = false) (hinfinite : x.isInfinite = false) :
    x.code < p.infinity := by
  simp only [isNaN, isInfinite, decide_eq_false_iff_not, beq_eq_false_iff_ne] at hnan hinfinite
  omega

theorem round_negative (negative : Bool) (num den : Nat) :
    (round negative num den : Scalar p).negative = negative := rfl

theorem round_code (negative : Bool) (num den : Nat) :
    (round negative num den : Scalar p).code = p.nearest num den := rfl

theorem round_eq {negative : Bool} {num den : Nat} (hsign : negative = x.negative)
    (hcode : p.nearest num den = x.code) : round negative num den = x := by
  simp only [round, ofCode, hsign, hcode]

/-! ### Adding to zero -/

theorem round_zero (negative : Bool) {den : Nat} (hden : 0 < den) :
    (round negative 0 den : Scalar p) = signedZero negative :=
  round_eq rfl (p.nearest_zero hden)

theorem isInfinite_zero : (zero : Scalar p).isInfinite = false := by cases p <;> rfl

theorem value_zero : (zero : Scalar p).value = 0 := by
  show (p.units 0 : Int) = 0
  rw [p.units_zero]
  rfl

/-- A sum with zero has no other rounding than that of the other term. -/
theorem zero_add_of_finite (hnan : x.isNaN = false) (hinfinite : x.isInfinite = false) :
    .zero + x = if x.value = 0 then .zero else round (x.value < 0) x.value.natAbs 1 := by
  show add zero x = _
  simp only [add, isNaN_zero, hnan, isInfinite_zero, hinfinite, value_zero, Int.zero_add]
  rfl

/-- Added to zero, a scalar stays as it is, bit for bit, unless it is a NaN or a zero. -/
theorem zero_add_eq (hnan : x.isNaN = false) (hzero : x.code ≠ 0) : .zero + x = x := by
  by_cases hinfinite : x.isInfinite = true
  · show add zero x = x
    simp [add, isNaN_zero, hnan, isInfinite_zero, hinfinite]
  · have hfinite : x.isInfinite = false := eq_false_of_ne_true hinfinite
    have hcode := code_lt_infinity hnan hfinite
    have hunits := p.units_pos (Nat.pos_of_ne_zero hzero)
    rw [zero_add_of_finite hnan hfinite]
    have hsign : decide (x.value < 0) = x.negative := by
      unfold value
      split <;> simp_all
    have habs : x.value.natAbs = p.units x.code := by
      unfold value
      split <;> simp
    rw [if_neg (value_ne_zero hzero), habs]
    exact round_eq hsign (p.nearest_units hcode)

theorem zero_add_of_code (hzero : x.code = 0) : .zero + x = .zero := by
  have hpos := p.infinity_pos
  rw [zero_add_of_finite (by simp [isNaN, hzero]) (by simp [isInfinite, hzero]; omega)]
  simp [value, hzero, p.units_zero]

theorem isNaN_zero_add (hnan : x.isNaN = true) : (.zero + x : Scalar p).isNaN = true := by
  show (add zero x).isNaN = true
  simp [add, hnan, nan_isNaN]

end Scalar
end CowArrays
