import CowArrays.Proofs.Scalar.Widening
import CowArrays.Proofs.Text.Decimals

/-!
64-bit scalars in text. Thirteen digits of a finite scalar do not pass the greatest one, so a finite
one is read from them. It is the nearest to the digits, so reading is off by no more than writing
was. If the scalar is normal, what is read has the same digits again.
-/

namespace CowArrays

namespace Scalar

variable {v w : Scalar .double}

/-! ### Values -/

theorem abs_value_sub {p : Precision} {v w : Scalar p} (hsign : w.negative = v.negative) :
    |w.value - v.value| = |(p.units w.code : Int) - p.units v.code| := by
  unfold value
  rw [hsign]
  split
  · rw [neg_sub_neg, abs_sub_comm]
  · rfl

theorem close_of_cast {a b : Nat} (h : |(a : ℚ) - b| * 10 ^ 12 ≤ b) :
    |(a : Int) - b| * 10 ^ 12 ≤ b := by
  exact_mod_cast h

/-! ### What is read of a text -/

/-- Whether a finite scalar stands for another one: it is a zero only if that is one, and it is off by
one part in a million millions at most. -/
structure IsNear (v w : Scalar .double) : Prop where
  finite : w.isFinite = true
  zero : w.isZero = v.isZero
  close : |w.value - v.value| * 10 ^ 12 ≤ |v.value|

namespace IsProper

/-- Thirteen digits do not pass the greatest finite scalar. Its own are rounded down. -/
theorem rounded_le_greatest (hv : v.IsProper) :
    (Decimal.rounded 13 (Precision.double.units v.code) Precision.double.one).amount *
      Precision.double.one ≤ Precision.double.greatest := by
  have hmost : Precision.double.units v.code ≤
      Precision.double.units (Precision.double.infinity - 1) :=
    Precision.double.units_strictMono.monotone (Nat.le_sub_one_of_lt hv.finite)
  exact Decimal.amount_rounded_mul_le (k := 1797693134862) (e := 296) 12 hv.units_pos
    Precision.double.one_pos (by decide) (by decide)
    ((Nat.mul_le_mul_left 2 hmost).trans_lt (by decide +kernel)) (by decide +kernel)

section Rounding

variable {num den : Nat}

/-- What is rounded from thirteen digits is near to what they are of. -/
theorem isNear_round (hv : v.IsProper) (hden : 0 < den)
    (hvalue : (num / den : ℚ) = (Decimal.rounded 13 (Precision.double.units v.code)
      Precision.double.one).amount * Precision.double.one) :
    v.IsNear (round v.negative num den) := by
  have hinfinity := Precision.double.infinity_pos
  have hgreatest := hv.rounded_le_greatest
  have herror := hv.abs_rounded_sub_le
  rw [← hvalue] at hgreatest herror
  have hfinite : Precision.double.nearest num den < Precision.double.infinity :=
    Precision.nearest_lt_infinity hden (by omega) hgreatest
  -- the scalar itself is as far from its digits as writing is off, so reading is off by no more
  have hnearest := Precision.abs_units_nearest_sub_le_abs hden hfinite v.code
  have hclose : |(Precision.double.units (Precision.double.nearest num den) : ℚ) -
      Precision.double.units v.code| * 10 ^ 12 ≤ Precision.double.units v.code := by
    rw [abs_sub_comm (Precision.double.units v.code : ℚ)] at hnearest
    have htriangle := abs_sub_le (Precision.double.units (Precision.double.nearest num den) : ℚ)
      (num / den) (Precision.double.units v.code)
    linarith
  have hnonzero : Precision.double.nearest num den ≠ 0 := by
    intro hzero
    have hunits : (0 : ℚ) < Precision.double.units v.code := Nat.cast_pos.2 hv.units_pos
    rw [hzero, Precision.units_zero, Nat.cast_zero, zero_sub, abs_neg, abs_of_pos hunits] at hclose
    linarith
  constructor
  case finite =>
    rw [isFinite, round_code]
    exact decide_eq_true hfinite
  case zero =>
    rw [hv.isZero, Scalar.isZero, round_code]
    exact beq_eq_false_iff_ne.2 hnonzero
  case close =>
    rw [abs_value_sub (round_negative _ num den), abs_value, round_code]
    exact close_of_cast hclose

/-- Thirteen digits of a normal scalar are those of the scalar that is rounded from them. -/
theorem rounded_units_nearest (hv : v.IsProper)
    (hnormal : 2 ^ Precision.double.fractionBits ≤ Precision.double.units v.code) (hden : 0 < den)
    (hvalue : (num / den : ℚ) = (Decimal.rounded 13 (Precision.double.units v.code)
      Precision.double.one).amount * Precision.double.one)
    (hw : (round v.negative num den : Scalar .double).IsProper) :
    Decimal.rounded 13 (Precision.double.units (Precision.double.nearest num den))
        Precision.double.one =
      Decimal.rounded 13 (Precision.double.units v.code) Precision.double.one := by
  have hone : (0 : ℚ) < Precision.double.one := Nat.cast_pos.2 Precision.double.one_pos
  have hunits := hw.units_pos
  have hfinite := hw.finite
  rw [round_code] at hunits hfinite
  obtain ⟨hleast, hmost, -⟩ := Decimal.rounded_spec 12 hv.units_pos Precision.double.one_pos
  obtain ⟨hlow, -⟩ := half_le_of_close (by norm_num) hv.abs_rounded_sub_le
  have hnormal' : (2 ^ Precision.double.fractionBits : ℚ) ≤ Precision.double.units v.code := by
    exact_mod_cast hnormal
  have herror := Precision.abs_units_nearest_sub_le_of_half hden hfinite (by linarith)
  rw [hvalue] at herror
  refine Decimal.rounded_eq_of_close 12 hunits Precision.double.one_pos hleast hmost ?_
  generalize Precision.double.units (Precision.double.nearest num den) = a at herror ⊢
  generalize (Decimal.rounded (12 + 1) (Precision.double.units v.code)
    Precision.double.one).amount = d at herror ⊢
  have hscaled : (a / Precision.double.one : ℚ) - d =
      (a - d * Precision.double.one) / Precision.double.one := by
    rw [sub_div, mul_div_cancel_right₀ _ hone.ne']
  have hbits : (2 : ℚ) * 10 ^ (12 + 2) ≤ 2 ^ Precision.double.fractionBits := by
    norm_num [Precision.fractionBits]
  rw [hscaled, abs_div, abs_of_pos hone, div_mul_eq_mul_div, div_le_iff₀ hone]
  exact (mul_le_mul_of_nonneg_left hbits (abs_nonneg _)).trans herror

end Rounding

end IsProper

/-! ### Reading what was written -/

theorem isNear_refl (hfinite : v.isFinite = true) : v.IsNear v := by
  refine ⟨hfinite, rfl, ?_⟩
  rw [sub_self, abs_zero, Int.zero_mul]
  exact abs_nonneg _

theorem IsNear.isProper (h : v.IsNear w) (hv : v.IsProper) : w.IsProper :=
  ⟨of_decide_eq_true h.finite, beq_eq_false_iff_ne.1 (h.zero.trans hv.isZero)⟩

theorem ofText?_scientific_self (h : v.code = 0 ∨ v.isInfinite = true) :
    ofText? v.scientific = some v := by
  rcases h with hzero | hinfinite
  · have htext := ofText?_scientific_of_isZero hzero .double
    rw [← eq_signedZero hzero] at htext
    exact htext
  · have hnan : v.isNaN = false := by
      rw [eq_infinite hinfinite]
      exact isNaN_infinite _
    have htext := ofText?_scientific_of_isInfinite hnan hinfinite .double
    rw [← eq_infinite hinfinite] at htext
    exact htext

/-- A finite scalar is read from the text of one, of the same sign and near to it. -/
theorem exists_ofText?_isNear (hfinite : v.isFinite = true) : ∃ w : Scalar .double,
    ofText? v.scientific = some w ∧ w.negative = v.negative ∧ v.IsNear w := by
  rcases v.cases_proper with hnan | ⟨-, hinfinite⟩ | hzero | hv
  · simp only [isFinite, isNaN, decide_eq_true_eq] at hfinite hnan
    omega
  · simp only [isFinite, isInfinite, decide_eq_true_eq, beq_iff_eq] at hfinite hinfinite
    omega
  · exact ⟨v, ofText?_scientific_self (.inl hzero), rfl, isNear_refl hfinite⟩
  · obtain ⟨num, den, hden, hvalue, htext⟩ := hv.exists_ofText?_rounded
    exact ⟨_, htext .double, round_negative _ num den, hv.isNear_round hden hvalue⟩

theorem isZero_of_isNaN {p : Precision} {x : Scalar p} (hnan : x.isNaN = true) :
    x.isZero = false := by
  simp only [isNaN, decide_eq_true_eq] at hnan
  exact beq_eq_false_iff_ne.2 (by omega)

theorem code_ne_zero_of_isInfinite {p : Precision} {x : Scalar p} (hinfinite : x.isInfinite = true) :
    x.code ≠ 0 := by
  rw [beq_iff_eq.1 hinfinite]
  exact p.infinity_pos.ne'

theorem IsProper.zero_add_eq {p : Precision} {x : Scalar p} (hx : x.IsProper) : .zero + x = x :=
  Scalar.zero_add_eq hx.isNaN hx.nonzero

theorem zero_add_of_isInfinite {p : Precision} {x : Scalar p} (hinfinite : x.isInfinite = true) :
    .zero + x = x := by
  refine zero_add_eq ?_ (code_ne_zero_of_isInfinite hinfinite)
  rw [eq_infinite hinfinite]
  exact isNaN_infinite _

/-- Whether a scalar is what is left of another one that was written and added to zero: a NaN or a
zero only if that is one, and near to it if that is finite. -/
structure IsLeft (v w : Scalar .double) : Prop where
  nan : w.isNaN = v.isNaN
  zero : w.isZero = v.isZero
  near : v.isFinite = true → v.IsNear w

/-- A sum with zero has lost the sign of a zero, but not its value. -/
theorem isLeft_zero (negative : Bool) : (signedZero negative : Scalar .double).IsLeft .zero := by
  cases negative
  · exact ⟨rfl, rfl, isNear_refl⟩
  · exact ⟨rfl, rfl, fun _ => ⟨rfl, rfl, by decide⟩⟩

theorem exists_isLeft (v : Scalar .double) :
    ∃ w : Scalar .double, ofText? v.scientific = some w ∧ v.IsLeft (.zero + w) := by
  rcases v.cases_proper with hnan | ⟨hnan, hinfinite⟩ | hzero | hv
  · have hleft : (.zero + nan false : Scalar .double).isNaN = true :=
      isNaN_zero_add (nan_isNaN false)
    refine ⟨_, ofText?_scientific_of_isNaN hnan .double, hleft.trans hnan.symm, ?_, fun hfinite => ?_⟩
    · exact (isZero_of_isNaN hleft).trans (isZero_of_isNaN hnan).symm
    · simp only [isFinite, isNaN, decide_eq_true_eq] at hfinite hnan
      omega
  · refine ⟨v, ofText?_scientific_self (.inr hinfinite), ?_⟩
    rw [zero_add_of_isInfinite hinfinite]
    exact ⟨rfl, rfl, isNear_refl⟩
  · refine ⟨v, ofText?_scientific_self (.inl hzero), ?_⟩
    rw [zero_add_of_code hzero, eq_signedZero hzero]
    exact isLeft_zero v.negative
  · obtain ⟨num, den, hden, hvalue, htext⟩ := hv.exists_ofText?_rounded
    have hnear := hv.isNear_round hden hvalue
    have hw := hnear.isProper hv
    refine ⟨_, htext .double, ?_⟩
    rw [ofDouble, hw.zero_add_eq]
    exact ⟨hw.isNaN.trans hv.isNaN.symm, hnear.zero, fun _ => hnear⟩

/-! ### Texts that stay -/

/-- Whether a scalar is finite and not below the least one with all bits of a significand. -/
def IsNormal {p : Precision} (v : Scalar p) : Prop :=
  v.isFinite = true ∧ 2 ^ p.fractionBits ≤ p.units v.code

theorem IsNormal.isProper {p : Precision} {v : Scalar p} (h : v.IsNormal) : v.IsProper := by
  refine ⟨of_decide_eq_true h.1, fun hzero => ?_⟩
  have hunits := h.2
  rw [hzero, p.units_zero] at hunits
  exact absurd hunits (Nat.not_le.2 (Nat.two_pow_pos _))

/-- Whether a scalar keeps its text: a zero without a sign, an infinity, a NaN or normal. -/
inductive IsSettled (v : Scalar .double) : Prop
  | zero (h : v = .zero)
  | infinite (h : v.isInfinite = true)
  | nan (h : v.isNaN = true)
  | normal (h : v.IsNormal)

theorem scientific_of_isNaN (hnan : v.isNaN = true) : v.scientific = "NaN" := by
  simp [scientific, writeWith, hnan]

/-- What is read of its text and added to zero has the same text. -/
theorem IsSettled.exists_scientific_eq (h : v.IsSettled) :
    ∃ w : Scalar .double, ofText? v.scientific = some w ∧
      (.zero + w).scientific = v.scientific := by
  cases h with
  | zero h =>
    subst h
    exact ⟨.zero, ofText?_scientific_self (.inl rfl), by rw [zero_add_of_code rfl]⟩
  | infinite h =>
    exact ⟨v, ofText?_scientific_self (.inr h), by rw [zero_add_of_isInfinite h]⟩
  | nan h =>
    refine ⟨_, ofText?_scientific_of_isNaN h .double, ?_⟩
    rw [scientific_of_isNaN h]
    exact scientific_of_isNaN (isNaN_zero_add (nan_isNaN false))
  | normal h =>
    have hv := h.isProper
    obtain ⟨num, den, hden, hvalue, htext⟩ := hv.exists_ofText?_rounded
    have hw := (hv.isNear_round hden hvalue).isProper hv
    have hdigits := hv.rounded_units_nearest h.2 hden hvalue hw
    refine ⟨_, htext .double, ?_⟩
    rw [ofDouble, hw.zero_add_eq, hw.scientific_eq, hv.scientific_eq, round_code, hdigits, signText,
      round_negative, signText]

end Scalar
end CowArrays
