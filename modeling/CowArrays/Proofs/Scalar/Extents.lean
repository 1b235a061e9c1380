import CowArrays.Proofs.Scalar.Widening
import Mathlib.Algebra.Order.Field.Basic
import Mathlib.Data.Rat.Cast.Order
import Mathlib.Order.WithBot
import Mathlib.Tactic.ByContra

/-!
Exact magnitudes of scalars in both formats, infinities above all numbers, and how a 64-bit scalar
lies to those of the format that it is narrowed to: none of them is strictly between it and what it
is narrowed to.
-/

namespace CowArrays.Scalar

variable {p : Precision} {x y : Scalar p} {t : Scalar .double}

def rational (x : Scalar p) : ℚ := x.value / p.one

/-- Exact magnitude of what is not a NaN. -/
def extent (x : Scalar p) : WithTop ℚ :=
  if x.isInfinite then ⊤ else ((|x.rational| : ℚ) : WithTop ℚ)

theorem abs_rational (x : Scalar p) : |x.rational| = p.units x.code / p.one := by
  have hone : (0 : ℚ) < p.one := Nat.cast_pos.2 p.one_pos
  rw [rational, abs_div, abs_of_pos hone, ← Int.cast_abs, abs_value, Int.cast_natCast]

theorem extent_of_isInfinite (h : x.isInfinite = true) : x.extent = ⊤ := if_pos h

theorem extent_of_not_isInfinite (h : x.isInfinite = false) :
    x.extent = ((p.units x.code / p.one : ℚ) : WithTop ℚ) := by
  rw [extent, h, if_neg Bool.false_ne_true, abs_rational]

theorem isInfinite_of_isFinite (h : x.isFinite = true) : x.isInfinite = false :=
  beq_eq_false_iff_ne.2 (Nat.ne_of_lt (of_decide_eq_true h))

theorem isNaN_of_isFinite (h : x.isFinite = true) : x.isNaN = false :=
  decide_eq_false (Nat.not_lt.2 (Nat.le_of_lt (of_decide_eq_true h)))

theorem code_le_infinity (h : x.isNaN = false) : x.code ≤ p.infinity :=
  Nat.le_of_not_lt (of_decide_eq_false h)

theorem extent_of_isFinite (h : x.isFinite = true) :
    x.extent = ((|x.rational| : ℚ) : WithTop ℚ) := by
  rw [extent, isInfinite_of_isFinite h, if_neg Bool.false_ne_true]

theorem rational_nonneg (h : zero.le x = true) : 0 ≤ x.rational := by
  have hone : (0 : ℚ) < p.one := Nat.cast_pos.2 p.one_pos
  have hkey := key_of_zero_le h
  have hvalue : 0 ≤ x.value := by
    unfold key at hkey
    unfold value
    split
    · have hcode : x.code = 0 := by grind
      rw [hcode, p.units_zero]
      decide
    · exact Int.natCast_nonneg _
  exact div_nonneg (Int.cast_nonneg hvalue) hone.le

theorem extent_of_zero_le (hfinite : x.isFinite = true) (h : zero.le x = true) :
    x.extent = (x.rational : WithTop ℚ) := by
  rw [extent_of_isFinite hfinite, abs_of_nonneg (rational_nonneg h)]

theorem extent_lt_of_code_lt (hy : y.isNaN = false) (h : x.code < y.code) :
    x.extent < y.extent := by
  have hfinite : x.isFinite = true := decide_eq_true (Nat.lt_of_lt_of_le h (code_le_infinity hy))
  rw [extent_of_not_isInfinite (isInfinite_of_isFinite hfinite)]
  cases hinfinite : y.isInfinite with
  | true =>
    rw [extent_of_isInfinite hinfinite]
    exact WithTop.coe_lt_top _
  | false =>
    have hone : (0 : ℚ) < p.one := Nat.cast_pos.2 p.one_pos
    rw [extent_of_not_isInfinite hinfinite, WithTop.coe_lt_coe, div_lt_div_iff_of_pos_right hone]
    exact_mod_cast p.units_strictMono h

theorem extent_eq_iff (hx : x.isNaN = false) (hy : y.isNaN = false) :
    x.extent = y.extent ↔ x.code = y.code := by
  constructor
  · intro heq
    rcases Nat.lt_trichotomy x.code y.code with hlt | hcode | hgt
    · exact absurd heq (extent_lt_of_code_lt hy hlt).ne
    · exact hcode
    · exact absurd heq (extent_lt_of_code_lt hx hgt).ne'
  · intro hcode
    rw [extent, extent, abs_rational, abs_rational, isInfinite, isInfinite, hcode]

/-! ### Narrowing -/

theorem isNaN_ofDouble (h : t.isNaN = false) : (ofDouble t : Scalar p).isNaN = false := by
  cases p with
  | double => exact h
  | single =>
    show (convert t : Scalar .single).isNaN = false
    cases hinfinite : t.isInfinite with
    | true => rw [convert_of_isInfinite h hinfinite, isNaN_infinite]
    | false => rw [convert_of_finite h hinfinite, round_isNaN]

/-- A finite scalar is narrowed to a code whose midpoints enclose it, were there no end to codes. -/
theorem exists_code_ofDouble (p : Precision) (h : t.isFinite = true) : ∃ c : Nat,
    (ofDouble t : Scalar p).code = min c p.infinity ∧
      (0 < c → ((p.units (c - 1) + p.units c) / p.one : ℚ) ≤
        2 * (Precision.double.units t.code / Precision.double.one)) ∧
      2 * (Precision.double.units t.code / Precision.double.one : ℚ) ≤
        (p.units c + p.units (c + 1)) / p.one := by
  cases p with
  | double =>
    have hone : (0 : ℚ) < Precision.double.one := Nat.cast_pos.2 Precision.double.one_pos
    have hbefore : (Precision.double.units (t.code - 1) : ℚ) ≤ Precision.double.units t.code := by
      exact_mod_cast Precision.double.units_strictMono.monotone (Nat.sub_le t.code 1)
    have hbehind : (Precision.double.units t.code : ℚ) ≤ Precision.double.units (t.code + 1) := by
      exact_mod_cast Precision.double.units_strictMono.monotone (Nat.le_succ t.code)
    refine ⟨t.code, (Nat.min_eq_left (Nat.le_of_lt (of_decide_eq_true h))).symm, fun _ => ?_, ?_⟩
    · rw [mul_div_assoc', div_le_div_iff_of_pos_right hone]
      linarith
    · rw [mul_div_assoc', div_le_div_iff_of_pos_right hone]
      linarith
  | single =>
    have hone : (0 : ℚ) < Precision.single.one := Nat.cast_pos.2 Precision.single.one_pos
    have hround : (ofDouble t : Scalar .single) = round t.negative
        (Precision.double.units t.code * Precision.single.one) Precision.double.one :=
      convert_of_finite (isNaN_of_isFinite h) (isInfinite_of_isFinite h)
    have hscaled (a b c : Nat) : ((a * b : Nat) / c : ℚ) = a / c * b := by
      rw [Nat.cast_mul, mul_div_right_comm]
    obtain ⟨c, hcode, hlow, hhigh, -⟩ := Precision.single.exists_enclosed
      (Precision.double.units t.code * Precision.single.one) Precision.double.one_pos
    rw [hscaled, ← mul_assoc] at hlow hhigh
    rw [hround, round_code]
    refine ⟨c, hcode, fun hpos => ?_, ?_⟩
    · rw [div_le_iff₀ hone]
      exact hlow hpos
    · rw [le_div_iff₀ hone]
      exact hhigh

theorem extent_lt_of_ofDouble_lt (ht : t.isFinite = true) (hx : x.isNaN = false)
    (h : (ofDouble t : Scalar p).code < x.code) : t.extent < x.extent := by
  rw [extent_of_not_isInfinite (isInfinite_of_isFinite ht)]
  cases hinfinite : x.isInfinite with
  | true =>
    rw [extent_of_isInfinite hinfinite]
    exact WithTop.coe_lt_top _
  | false =>
    obtain ⟨c, hcode, -, hhigh⟩ := exists_code_ofDouble p ht
    have hone : (0 : ℚ) < p.one := Nat.cast_pos.2 p.one_pos
    have hle := code_le_infinity hx
    have hlt : c < x.code := by omega
    -- the midpoint behind the code is below the next code
    have hself : (p.units c : ℚ) < p.units x.code := by exact_mod_cast p.units_strictMono hlt
    have hnext : (p.units (c + 1) : ℚ) ≤ p.units x.code := by
      exact_mod_cast p.units_strictMono.monotone hlt
    rw [le_div_iff₀ hone] at hhigh
    rw [extent_of_not_isInfinite hinfinite, WithTop.coe_lt_coe, lt_div_iff₀ hone]
    linarith

/-- What is not below a scalar is not below what it is narrowed to. -/
theorem ofDouble_code_le (ht : t.isFinite = true) (h : t.extent ≤ x.extent) :
    (ofDouble t : Scalar p).code ≤ x.code := by
  obtain ⟨c, hcode, hlow, -⟩ := exists_code_ofDouble p ht
  have hone : (0 : ℚ) < p.one := Nat.cast_pos.2 p.one_pos
  by_contra hgt
  have hlt : x.code < c ∧ x.code < p.infinity := by omega
  have hfinite : x.isInfinite = false := isInfinite_of_isFinite (decide_eq_true hlt.2)
  rw [extent_of_not_isInfinite (isInfinite_of_isFinite ht), extent_of_not_isInfinite hfinite,
    WithTop.coe_le_coe, le_div_iff₀ hone] at h
  -- the midpoint before the code is not below the code before it
  have hbefore : (p.units x.code : ℚ) ≤ p.units (c - 1) := by
    exact_mod_cast p.units_strictMono.monotone (Nat.le_sub_one_of_lt hlt.1)
  have hself : (p.units x.code : ℚ) < p.units c := by exact_mod_cast p.units_strictMono hlt.1
  have hmid := hlow (Nat.zero_lt_of_lt hlt.1)
  rw [div_le_iff₀ hone] at hmid
  linarith

/-- A scalar that the format has is narrowed to itself. -/
theorem extent_ofDouble_of_eq (ht : t.isFinite = true) {v : Scalar p} (hv : v.isFinite = true)
    (h : v.extent = t.extent) : (ofDouble t : Scalar p).extent = t.extent := by
  have hnan := isNaN_of_isFinite hv
  rw [← h, extent_eq_iff (isNaN_ofDouble (isNaN_of_isFinite ht)) hnan]
  refine Nat.le_antisymm (ofDouble_code_le ht h.ge) (Nat.le_of_not_lt fun hlt => ?_)
  exact absurd h (extent_lt_of_ofDouble_lt ht hnan hlt).ne'

end CowArrays.Scalar
