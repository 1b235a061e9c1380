import CowArrays.Json.Document
import CowArrays.Proofs.Json.Grammar
import CowArrays.Proofs.Text.Numerals
import CowArrays.Proofs.Text.Trimming
import Mathlib.Data.List.Basic

/-!
What tokens have in common: white space is skipped, words are passed over, and digits are octets of
their own.
-/

namespace CowArrays.Json

/-! ### White space and words -/

theorem skipBlanks_append {blanks : Octets} (h : Blanks blanks) (s : Octets) :
    skipBlanks (blanks ++ s) = skipBlanks s := List.dropWhile_append_of_pos h

theorem skipBlanks_cons {b : UInt8} (hb : isBlank b = false) (s : Octets) :
    skipBlanks (b :: s) = b :: s :=
  Text.dropWhile_of_head fun _ hc => Option.some.inj hc ▸ hb

theorem skipBlanks_append_cons {blanks : Octets} (h : Blanks blanks) {b : UInt8}
    (hb : isBlank b = false) (s : Octets) : skipBlanks (blanks ++ b :: s) = b :: s := by
  rw [skipBlanks_append h, skipBlanks_cons hb]

theorem expectWord_append (expected rest : Octets) :
    expectWord expected (expected ++ rest) = .ok rest := by
  induction expected with
  | nil => rfl
  | cons e expected ih => rw [List.cons_append, expectWord, if_pos rfl, ih]

theorem octets_word {s : String} (h : Text.IsAscii s) : s.toUTF8.toList = word s := by
  rw [Text.toList_toUTF8, word, List.map_eq_flatMap]
  exact List.flatMap_congr fun c hc => Text.utf8EncodeChar_of_lt (h c hc)

theorem octets_of_visible {s : String} (h : ∀ c ∈ s.toList, Text.IsVisible c) :
    s.toUTF8.toList = word s := octets_word fun c hc => Nat.lt_succ_of_lt (h c hc).2

/-! ### Digits -/

def octetOf (c : Char) : UInt8 := UInt8.ofNat c.toNat

theorem word_eq (s : String) : word s = s.toList.map octetOf := rfl

theorem toNat_octetOf {c : Char} (h : c.isDigit = true) : (octetOf c).toNat = c.toNat := by
  obtain ⟨-, hhigh⟩ := isDigit_iff.1 h
  rw [octetOf, UInt8.toNat_ofNat']
  omega

theorem isDigit_octetOf {c : Char} (h : c.isDigit = true) : isDigit (octetOf c) = true := by
  obtain ⟨hlow, hhigh⟩ := isDigit_iff.1 h
  have hnat := toNat_octetOf h
  simp only [isDigit, Bool.and_eq_true, decide_eq_true_eq, UInt8.le_iff_toNat_le]
  exact ⟨hnat ▸ hlow, hnat ▸ hhigh⟩

theorem digit_octetOf {c : Char} (h : c.isDigit = true) : digit (octetOf c) = Decimal.digit c := by
  rw [digit, toNat_octetOf h]
  rfl

section

variable {cs : List Char} (hall : ∀ c ∈ cs, c.isDigit = true)

include hall

theorem areDigits_map (hne : cs ≠ []) : AreDigits (cs.map octetOf) := by
  refine ⟨fun hnil => hne (List.map_eq_nil_iff.1 hnil), fun b hb => ?_⟩
  obtain ⟨c, hc, rfl⟩ := List.mem_map.1 hb
  exact isDigit_octetOf (hall c hc)

/-- A zero in front is alone in the octets where it is in the characters. -/
theorem noLeadingZero_map (hzero : cs.head? = some '0' → cs = ['0'])
    (hhead : (cs.map octetOf).head? = some 0x30) : cs.map octetOf = [0x30] := by
  cases cs with
  | nil => cases hhead
  | cons c cs =>
    have hnat := congrArg UInt8.toNat (Option.some.inj hhead)
    rw [toNat_octetOf (hall c List.mem_cons_self)] at hnat
    obtain rfl : c = '0' := Char.toNat_inj.1 hnat
    rw [hzero rfl]
    rfl

end

theorem ne_of_digit {b c : UInt8} (hb : isDigit b = true) (hc : isDigit c = false) : b ≠ c := by
  rintro rfl
  rw [hb] at hc
  cases hc

/-- Digits are none of the octets that mean something else. -/
theorem of_isDigit {b : UInt8} (h : isDigit b = true) :
    isBlank b = false ∧ b ≠ minus ∧ b ≠ closeList := by
  refine ⟨?_, ne_of_digit h rfl, ne_of_digit h rfl⟩
  simp only [isBlank, Bool.or_eq_false_iff, beq_eq_false_iff_ne]
  exact ⟨⟨⟨ne_of_digit h rfl, ne_of_digit h rfl⟩, ne_of_digit h rfl⟩, ne_of_digit h rfl⟩

theorem toDigits_leading {n : Nat} {rest : List Char} (h : Nat.toDigits 10 n = '0' :: rest) :
    n = 0 ∧ rest = [] := by
  induction n using Nat.strongRecOn generalizing rest with
  | ind n ih =>
    by_cases hn : n < 10
    · rw [Nat.toDigits_of_lt_base hn] at h
      obtain ⟨hhead, hrest⟩ := List.cons.inj h
      have hzero : ∀ m < 10, Nat.digitChar m = '0' → m = 0 := by decide
      exact ⟨hzero n hn hhead, hrest.symm⟩
    · exfalso
      rw [Nat.toDigits_of_base_le (by decide) (Nat.not_lt.1 hn)] at h
      cases hfront : Nat.toDigits 10 (n / 10) with
      | nil => exact Nat.toDigits_ne_nil hfront
      | cons c front =>
        rw [hfront, List.cons_append] at h
        obtain rfl := (List.cons.inj h).1
        have hzero := (ih (n / 10) (by omega) hfront).1
        omega

end CowArrays.Json
