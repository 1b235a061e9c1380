import CowArrays.Scalar.Arithmetic

/-!
The order of scalars as an order of keys. A NaN is in no relation, so what is not less is not always
at most.
-/

namespace CowArrays.Scalar

variable {p : Precision} {x y t : Scalar p}

theorem lt_iff : x.lt y = true ↔ x.isNaN = false ∧ y.isNaN = false ∧ x.key < y.key := by
  simp [lt, and_assoc]

theorem le_iff : x.le y = true ↔ x.isNaN = false ∧ y.isNaN = false ∧ x.key ≤ y.key := by
  simp [le, and_assoc]

theorem same_iff : x.same y = true ↔ x.isNaN = false ∧ y.isNaN = false ∧ x.key = y.key := by
  simp [same, and_assoc]

theorem isNaN_zero : (zero : Scalar p).isNaN = false := by
  simp [isNaN, zero, signedZero, ofCode]

theorem key_zero : (zero : Scalar p).key = 0 := rfl

theorem zero_le_iff : zero.le t = true ↔ t.isNaN = false ∧ 0 ≤ t.key := by
  rw [le_iff, isNaN_zero, key_zero]
  exact and_iff_right rfl

theorem not_zero_le_iff : ¬ zero.le t = true ↔ t.isNaN = true ∨ t.lt zero = true := by
  rw [zero_le_iff, lt_iff, isNaN_zero, key_zero]
  cases t.isNaN with
  | true => simp
  | false =>
    simp only [true_and, Bool.false_eq_true, false_or]
    omega

theorem magnitude_of_not_lt (h : x.lt zero = false) : x.magnitude = x := by
  rw [magnitude, h]
  rfl

theorem not_lt_magnitude_of_isNaN (h : x.isNaN = true) : ¬ t.lt x.magnitude = true := by
  have hlt : x.lt zero = false := by simp [lt, h]
  rw [magnitude_of_not_lt hlt, lt_iff]
  intro ⟨_, hx, _⟩
  rw [h] at hx
  cases hx

/-- What is at least zero is not less than the magnitude of a zero, of whatever sign. -/
theorem not_lt_magnitude_of_zero (ht : zero.le t = true) (h : x.same zero = true) :
    ¬ t.lt x.magnitude = true := by
  have ⟨_, _, hkey⟩ := same_iff.1 h
  have ⟨_, hnonneg⟩ := zero_le_iff.1 ht
  rw [key_zero] at hkey
  have hlt : x.lt zero = false := by
    rw [lt, key_zero, hkey]
    simp
  rw [magnitude_of_not_lt hlt, lt_iff]
  intro ⟨_, _, hless⟩
  omega

theorem key_of_zero_le (h : zero.le t = true) : t.key = t.code := by
  obtain ⟨-, hkey⟩ := zero_le_iff.1 h
  unfold key at hkey ⊢
  cases hsign : t.negative with
  | false => simp
  | true =>
    simp only [hsign, if_true] at hkey ⊢
    omega

theorem isNaN_magnitude : x.magnitude.isNaN = x.isNaN := by
  unfold magnitude
  split
  · rfl
  · rfl

theorem key_magnitude (h : x.isNaN = false) : x.magnitude.key = x.code := by
  have hlt : x.lt zero = true ↔ x.key < 0 := by simp [lt_iff, h, isNaN_zero, key_zero]
  have hneg : (-x).code = x.code ∧ (-x).negative = !x.negative := ⟨rfl, rfl⟩
  unfold magnitude
  cases hsign : x.negative with
  | false => grind [key]
  | true => grind [key]

/-- What is at least zero is less than a magnitude where its code is. -/
theorem lt_magnitude_iff (ht : zero.le t = true) :
    t.lt x.magnitude = true ↔ x.isNaN = false ∧ t.code < x.code := by
  rw [lt_iff, isNaN_magnitude, key_of_zero_le ht, and_iff_right (zero_le_iff.1 ht).1]
  refine and_congr_right fun hnan => ?_
  rw [key_magnitude hnan]
  exact Int.ofNat_lt

/-- What is less than zero is less than every magnitude but that of a NaN. -/
theorem lt_magnitude_of_lt_zero (ht : t.lt zero = true) (hx : x.isNaN = false) :
    t.lt x.magnitude = true := by
  obtain ⟨hnan, -, hkey⟩ := lt_iff.1 ht
  rw [key_zero] at hkey
  have hcode := key_magnitude hx
  exact lt_iff.2 ⟨hnan, isNaN_magnitude.trans hx, by omega⟩

theorem zero_lt_magnitude_iff : zero.lt x.magnitude = true ↔ x.isNaN = false ∧ x.isZero = false := by
  have hzero : zero.le (zero : Scalar p) = true := zero_le_iff.2 ⟨isNaN_zero, Int.le_refl 0⟩
  rw [lt_magnitude_iff hzero, isZero, beq_eq_false_iff_ne]
  exact and_congr_right fun _ => Nat.pos_iff_ne_zero

theorem le_refl (h : x.isNaN = false) : x.le x = true := le_iff.2 ⟨h, h, Int.le_refl _⟩

theorem lt_of_le_of_lt (hxy : x.le y = true) (hyt : y.lt t = true) : x.lt t = true := by
  obtain ⟨hx, -, hle⟩ := le_iff.1 hxy
  obtain ⟨-, ht, hlt⟩ := lt_iff.1 hyt
  exact lt_iff.2 ⟨hx, ht, Int.lt_of_le_of_lt hle hlt⟩

theorem not_lt_of_same (h : x.same t = true) : ¬ t.lt x = true := by
  have ⟨_, _, hkey⟩ := same_iff.1 h
  rw [lt_iff]
  intro ⟨_, _, hless⟩
  omega

end CowArrays.Scalar
