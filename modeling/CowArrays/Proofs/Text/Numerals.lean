import CowArrays.Proofs.Text.Utf8
import CowArrays.Text.Index

/-!
Numerals: what is written in decimal reads back as the number that it was written for, indices below
their limit and exponents of either sign.
-/

namespace CowArrays

open Text (IsVisible)

theorem isDigit_iff {c : Char} : c.isDigit = true ↔ 48 ≤ c.toNat ∧ c.toNat ≤ 57 := by
  simp [Char.isDigit, UInt32.le_iff_toNat_le]

theorem visible_of_isDigit {c : Char} (h : c.isDigit = true) : IsVisible c := by
  obtain ⟨hlow, hhigh⟩ := isDigit_iff.1 h
  exact ⟨by omega, by omega⟩

theorem ne_of_isDigit {c d : Char} (hc : c.isDigit = true) (hd : d.isDigit = false) : c ≠ d := by
  rintro rfl
  rw [hc] at hd
  cases hd

theorem isDigit_of_mem_toDigits {n : Nat} {c : Char} (h : c ∈ Nat.toDigits 10 n) :
    c.isDigit = true :=
  Nat.isDigit_of_mem_toDigits (by decide) (by decide) h

theorem takeWhile_isDigit {cs : List Char} (h : ∀ c ∈ cs, c.isDigit = true) {d : Char}
    (hd : d.isDigit = false) (rest : List Char) :
    (cs ++ d :: rest).takeWhile Char.isDigit = cs ∧
      (cs ++ d :: rest).dropWhile Char.isDigit = d :: rest := by
  rw [List.takeWhile_append_of_pos h, List.dropWhile_append_of_pos h,
    List.takeWhile_cons_of_neg (by simp [hd]), List.dropWhile_cons_of_neg (by simp [hd]),
    List.append_nil]
  exact ⟨rfl, rfl⟩

namespace Decimal

theorem ofDigits_toDigits (n : Nat) : ofDigits (Nat.toDigits 10 n) = n :=
  Nat.ofDigitChars_ten_toDigits

def ofDigitsFrom (value : Nat) (cs : List Char) : Nat :=
  cs.foldl (fun n c => 10 * n + digit c) value

theorem le_ofDigitsFrom (value : Nat) (cs : List Char) : value ≤ ofDigitsFrom value cs := by
  induction cs generalizing value with
  | nil => exact Nat.le_refl value
  | cons c cs ih => exact Nat.le_trans (by omega) (ih (10 * value + digit c))

end Decimal

/-! ### Indices -/

/-- No prefix of digits spells more than all of them, so none goes past the limit before. -/
theorem readDigits_eq_ok {cs : List Char} (hcs : ∀ c ∈ cs, c.isDigit = true) {value : Nat}
    (h : Decimal.ofDigitsFrom value cs < indexLimit) :
    readDigits value cs = .ok (Decimal.ofDigitsFrom value cs) := by
  induction cs generalizing value with
  | nil => rfl
  | cons c cs ih =>
    obtain ⟨hc, hrest⟩ := List.forall_mem_cons.1 hcs
    have hle := Decimal.le_ofDigitsFrom (10 * value + Decimal.digit c) cs
    have hnext : 10 * value + Decimal.digit c < indexLimit := Nat.lt_of_le_of_lt hle h
    rw [readDigits, if_pos hc]
    exact (if_pos hnext).trans (ih hrest h)

theorem readIndex_toDigits {n : Nat} (h : n < indexLimit) :
    readIndex (Nat.toDigits 10 n) = .ok n := by
  have hvalue : Decimal.ofDigitsFrom 0 (Nat.toDigits 10 n) = n := Decimal.ofDigits_toDigits n
  have hread : readDigits 0 (Nat.toDigits 10 n) = .ok n := by
    rw [readDigits_eq_ok (fun _ hc => isDigit_of_mem_toDigits hc) (by rwa [hvalue]), hvalue]
  have hplus : '+' ∉ Nat.toDigits 10 n := fun hmem =>
    Bool.false_ne_true (isDigit_of_mem_toDigits hmem)
  unfold readIndex
  split
  · rename_i hnil
    exact absurd hnil Nat.toDigits_ne_nil
  · rename_i heq
    exact absurd (by rw [heq]; exact List.mem_cons_self) hplus
  · rename_i rest _ heq
    exact absurd (by rw [heq]; exact List.mem_cons_self) hplus
  · exact hread

/-! ### Exponents -/

theorem toList_toString_int (i : Int) : (toString i).toList =
    if 0 ≤ i then Nat.toDigits 10 i.toNat else '-' :: Nat.toDigits 10 (-i).toNat := by
  cases i with
  | ofNat n =>
    show (toString n).toList = _
    simp
  | negSucc n =>
    show ("-" ++ toString (n + 1)).toList = _
    rw [if_neg (by omega), String.toList_append, Nat.toString_eq_repr, Nat.toList_repr]
    rfl

namespace Decimal

theorem all_toDigits (n : Nat) : (Nat.toDigits 10 n).all Char.isDigit = true :=
  List.all_eq_true.2 fun _ hc => isDigit_of_mem_toDigits hc

theorem readExponent_toDigits (n : Nat) :
    readExponent ('e' :: Nat.toDigits 10 n) = some (n : Int) := by
  have hall := all_toDigits n
  have hvalue := ofDigits_toDigits n
  cases hdigits : Nat.toDigits 10 n with
  | nil => exact absurd hdigits Nat.toDigits_ne_nil
  | cons c cs =>
    rw [hdigits] at hall hvalue
    have hc : c.isDigit = true := (List.all_eq_true.1 hall) c List.mem_cons_self
    -- the first character is a digit, so there is no sign
    have hplus : c ≠ '+' := ne_of_isDigit hc rfl
    have hminus : c ≠ '-' := ne_of_isDigit hc rfl
    have hgood : c :: cs ≠ [] ∧ (c :: cs).all Char.isDigit = true := ⟨List.cons_ne_nil c cs, hall⟩
    rw [readExponent, if_pos (.inl rfl)]
    split
    · rw [hvalue, Int.one_mul]
    · rename_i hbad
      exact absurd hgood hbad
    · exact fun r heq => hplus (List.cons.inj heq).1
    · exact fun r heq => hminus (List.cons.inj heq).1

theorem readExponent_minus (n : Nat) :
    readExponent ('e' :: '-' :: Nat.toDigits 10 n) = some (-n : Int) := by
  simp [readExponent, Nat.toDigits_ne_nil, all_toDigits, ofDigits_toDigits]

theorem readExponent_toString (i : Int) : readExponent ('e' :: (toString i).toList) = some i := by
  rw [toList_toString_int]
  split
  · rw [readExponent_toDigits, Int.toNat_of_nonneg ‹_›]
  · rw [readExponent_minus, Int.toNat_of_nonneg (by omega), Int.neg_neg]

end Decimal
end CowArrays
