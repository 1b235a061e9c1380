import CowArrays.Proofs.Json.Grammar
import CowArrays.Proofs.Json.Tokens

/-!
What a numeral is taken for, in closed form, and the readers of numbers against it: whatever may
follow a numeral, they read all of it and no more.
-/

namespace CowArrays.Json

def deliver (x : Option Number) (rest : Octets) : Reads Number :=
  match x with
  | some x => .ok (x, rest)
  | none => .error .malformed

/-- Digits taken into a significand while it stays below its limit, and the digits left over. -/
def takeDigits (m : Nat) : Octets → Nat × Octets
  | [] => (m, [])
  | b :: s =>
    if 10 * m + digit b < significandLimit then takeDigits (10 * m + digit b) s else (m, b :: s)

/-- The scalar with this significand and power of ten; none where it is too large. -/
def scaledBy (positive : Bool) (m : Nat) (e : Int) : Option (Scalar .double) :=
  (scaleByTen (Scalar.ofNat m) e).map fun x => if positive then x else -x

/-- The same with a written power. One that is not computed with leaves nothing or zero. -/
def scaled (positive : Bool) (m : Nat) (e : Int) : Option Power → Option (Scalar .double)
  | none => scaledBy positive m e
  | some p =>
    if exponentLimit ≤ p.size then
      if m ≠ 0 ∧ p.up = true then none else some (.signedZero !positive)
    else scaledBy positive m (if p.up then e + p.size else e - p.size)

namespace Numeral

variable (n : Numeral)

def taken : Nat × Octets := takeDigits 0 n.whole

def takenBehind : Nat × Octets := takeDigits n.taken.1 n.fraction

def significand : Nat := n.takenBehind.1

/-- Digits before the point that were left over raise the power of ten, those behind it that were
taken lower it. -/
def scale : Int := n.taken.2.length - (n.fraction.length - n.takenBehind.2.length : Nat)

def number : Option Number :=
  if n.fraction = [] ∧ n.power = none ∧ n.taken.2 = [] then
    some (if n.negative then .scalar (-Scalar.ofNat n.significand) else .index n.significand)
  else (scaled (!n.negative) n.significand n.scale n.power).map .scalar

end Numeral

/-! ### Digits -/

theorem AreDigits.cases {s : Octets} (h : AreDigits s) : ∃ b digits, s = b :: digits ∧
    isDigit b = true ∧ ∀ c ∈ digits, isDigit c = true := by
  obtain ⟨b, digits, hs⟩ := List.exists_cons_of_ne_nil h.1
  have hall := h.2
  rw [hs] at hall
  exact ⟨b, digits, hs, List.forall_mem_cons.1 hall⟩

/-- A zero in front is alone. -/
theorem Numeral.whole_cases (n : Numeral) : n.whole = [0x30] ∨ ∃ b digits, n.whole = b :: digits ∧
    b ≠ 0x30 ∧ isDigit b = true ∧ ∀ c ∈ digits, isDigit c = true := by
  obtain ⟨b, digits, hwhole, hb, hrest⟩ := n.wholeDigits.cases
  by_cases hzero : b = 0x30
  · exact .inl (n.noLeadingZero (by rw [hwhole, hzero]; rfl))
  · exact .inr ⟨b, digits, hwhole, hzero, hb, hrest⟩

section Digits

variable {digits s : Octets} (hdigits : ∀ b ∈ digits, isDigit b = true)
  (hs : ∀ b ∈ s.head?, isDigit b = false)

include hdigits hs

theorem takeWhile_digits : (digits ++ s).takeWhile isDigit = digits := by
  have hnone : s.takeWhile isDigit = [] := by
    cases s with
    | nil => rfl
    | cons b s => exact List.takeWhile_cons_of_neg (by simp [hs b rfl])
  rw [List.takeWhile_append_of_pos hdigits, hnone, List.append_nil]

theorem dropWhile_digits : (digits ++ s).dropWhile isDigit = s := by
  rw [List.dropWhile_append_of_pos hdigits, Text.dropWhile_of_head hs]

end Digits

theorem Ends.head_not_digit {rest : Octets} (h : Ends rest) : ∀ b ∈ rest.head?, isDigit b = false :=
  fun b hb => (h b hb).1

theorem of_isExponentMark {b : UInt8} (h : isExponentMark b = true) :
    isDigit b = false ∧ b ≠ point := by
  simp only [isExponentMark, Bool.or_eq_true, beq_iff_eq] at h
  rcases h with rfl | rfl <;> decide

/-! ### Powers -/

theorem numberOf_eq (positive : Bool) (m : Nat) (e : Int) (rest : Octets) :
    numberOf positive m e rest = deliver ((scaledBy positive m e).map .scalar) rest := by
  rw [numberOf, scaledBy]
  cases scaleByTen (Scalar.ofNat m) e <;> rfl

/-- Behind its mark a power is read with its sign and all its digits. -/
theorem exponent_append (p : Power) (positive : Bool) (m : Nat) (e : Int) {rest : Octets}
    (h : Ends rest) : exponent positive m e (p.signText ++ p.digits ++ rest) =
      deliver ((scaled positive m e (some p)).map .scalar) rest := by
  obtain ⟨b, digits, hdigits, hb, -⟩ := p.areDigits.cases
  have hplus : b ≠ plus := ne_of_digit hb rfl
  have hminus : b ≠ minus := ne_of_digit hb rfl
  have htake := takeWhile_digits p.areDigits.2 h.head_not_digit
  have hdrop := dropWhile_digits p.areDigits.2 h.head_not_digit
  have hsize (up : Bool) : (if exponentLimit ≤ p.size then
      if m ≠ 0 ∧ up = true then .error .malformed
      else .ok (.scalar (.signedZero !positive), rest)
    else numberOf positive m (if up then e + p.size else e - p.size) rest : Reads Number) =
      deliver ((if exponentLimit ≤ p.size then
        if m ≠ 0 ∧ up = true then none else some (.signedZero !positive)
      else scaledBy positive m (if up then e + p.size else e - p.size)).map .scalar) rest := by
    split
    · split <;> rfl
    · exact numberOf_eq positive m _ rest
  rw [hdigits, List.cons_append] at htake hdrop
  rw [exponent.eq_def, scaled, Power.signText, Power.up, List.append_assoc, hdigits]
  cases p.sign with
  | none =>
    rw [List.nil_append, List.cons_append]
    dsimp only
    rw [if_neg hplus, if_neg hminus]
    dsimp only
    rw [if_pos hb, htake, hdrop, ← hdigits]
    exact hsize true
  | some up =>
    cases up with
    | true =>
      rw [List.singleton_append, List.cons_append]
      dsimp only
      rw [if_pos rfl]
      dsimp only
      rw [if_pos hb, htake, hdrop, ← hdigits]
      exact hsize true
    | false =>
      have hne : minus ≠ plus := by decide
      rw [List.singleton_append, List.cons_append]
      dsimp only
      rw [if_neg hne, if_pos rfl]
      dsimp only
      rw [if_pos hb, htake, hdrop, ← hdigits]
      exact hsize false

/-- What a power that may be written starts with. -/
theorem ends_or_mark (power : Option Power) {rest : Octets} (h : Ends rest) :
    ∀ b ∈ (power.elim [] Power.text ++ rest).head?, isDigit b = false ∧ b ≠ point := by
  cases power with
  | none => exact fun b hb => ⟨(h b hb).1, (h b hb).2.1⟩
  | some p => exact fun b hb => Option.some.inj hb ▸ of_isExponentMark p.isMark

theorem afterDigits_append (power : Option Power) (positive : Bool) (m : Nat) (e : Int)
    {rest : Octets} (h : Ends rest) :
    afterDigits positive m e (power.elim [] Power.text ++ rest) =
      deliver ((scaled positive m e power).map .scalar) rest := by
  cases power with
  | none =>
    cases rest with
    | nil => exact numberOf_eq positive m e []
    | cons b rest =>
      show afterDigits positive m e (b :: rest) = _
      rw [afterDigits, (h b rfl).2.2, if_neg Bool.false_ne_true]
      exact numberOf_eq positive m e (b :: rest)
  | some p =>
    show afterDigits positive m e (p.mark :: (p.signText ++ p.digits ++ rest)) = _
    rw [afterDigits, if_pos p.isMark, exponent_append p positive m e h]

/-! ### Digits around the point -/

theorem length_takeDigits_le (m : Nat) (digits : Octets) :
    (takeDigits m digits).2.length ≤ digits.length := by
  induction digits generalizing m with
  | nil => exact Nat.le_refl 0
  | cons b digits ih =>
    rw [takeDigits]
    split
    · exact Nat.le_succ_of_le (ih _)
    · exact Nat.le_refl _

theorem fraction_digits {digits s : Octets} (hdigits : ∀ b ∈ digits, isDigit b = true)
    (hs : ∀ b ∈ s.head?, isDigit b = false) (positive : Bool) (m : Nat) (e : Int) :
    fraction positive m e (digits ++ s) = afterDigits positive (takeDigits m digits).1
      (e - (digits.length - (takeDigits m digits).2.length : Nat)) s := by
  induction digits generalizing m e with
  | nil =>
    cases s with
    | nil => simp [fraction, takeDigits]
    | cons b s => simp [fraction, takeDigits, hs b rfl]
  | cons b digits ih =>
    obtain ⟨hb, hrest⟩ := List.forall_mem_cons.1 hdigits
    rw [List.cons_append, fraction, if_pos hb, takeDigits]
    dsimp only
    split
    · have hle := length_takeDigits_le (10 * m + digit b) digits
      rw [ih hrest, List.length_cons]
      congr 1
      omega
    · rw [dropWhile_digits hrest hs, Nat.sub_self]
      simp

def behindDigits (positive : Bool) (m : Nat) (e : Int) : Octets → Reads Number
  | [] => numberOf positive m e []
  | b :: s => if b = point then afterPoint positive m e s else afterDigits positive m e (b :: s)

/-- Digits before the point are taken, and those that cannot be taken raise the power of ten. -/
theorem integer_digits {digits s : Octets} (hdigits : ∀ b ∈ digits, isDigit b = true)
    (hs : ∀ b ∈ s.head?, isDigit b = false) (positive : Bool) (m : Nat) :
    integer positive m (digits ++ s) =
      if (takeDigits m digits).2 = [] then integer positive (takeDigits m digits).1 s
      else behindDigits positive (takeDigits m digits).1 (takeDigits m digits).2.length s := by
  induction digits generalizing m with
  | nil => rfl
  | cons b digits ih =>
    obtain ⟨hb, hrest⟩ := List.forall_mem_cons.1 hdigits
    have htake := takeWhile_digits hdigits hs
    have hdrop := dropWhile_digits hdigits hs
    rw [List.cons_append] at htake hdrop
    rw [List.cons_append, integer, if_pos hb, takeDigits]
    dsimp only
    split
    · exact ih hrest _
    · -- the first digit that does not fit is counted with all behind it
      rw [if_neg (List.cons_ne_nil _ _), htake, hdrop]
      cases s <;> rfl

theorem integer_first {b : UInt8} (hb : isDigit b = true) (positive : Bool) (s : Octets) :
    integer positive 0 (b :: s) = integer positive (digit b) s := by
  have hnext : 10 * 0 + digit b = digit b := by omega
  have hbelow : digit b < significandLimit :=
    Nat.lt_of_le_of_lt (Nat.sub_le _ _) (Nat.lt_trans b.toNat_lt (by decide))
  rw [integer, if_pos hb]
  dsimp only
  rw [hnext, if_pos hbelow]

namespace Numeral

variable (n : Numeral) {rest : Octets}

theorem head_behindWhole (h : Ends rest) :
    ∀ b ∈ (n.behindWhole ++ rest).head?, isDigit b = false := by
  rw [behindWhole]
  split
  · exact fun b hb => (ends_or_mark n.power h b hb).1
  · intro b hb
    obtain rfl := Option.some.inj hb
    rfl

/-- Once the power of ten counts, a point and its digits are read and then a power. -/
theorem behindDigits_append (h : Ends rest) (positive : Bool) (m : Nat) (e : Int) :
    behindDigits positive m e (n.behindWhole ++ rest) =
      deliver ((scaled positive (takeDigits m n.fraction).1
        (e - (n.fraction.length - (takeDigits m n.fraction).2.length : Nat)) n.power).map .scalar)
          rest := by
  have hhead := ends_or_mark n.power h
  rw [← afterDigits_append n.power positive _ _ h, behindWhole]
  by_cases hfraction : n.fraction = []
  · rw [if_pos hfraction, hfraction, List.nil_append, takeDigits]
    simp only [List.length_nil, Nat.sub_self, Int.ofNat_zero, Int.sub_zero]
    cases hs : n.power.elim [] Power.text ++ rest with
    | nil => rfl
    | cons b s => rw [behindDigits, if_neg (hhead b (by rw [hs]; rfl)).2]
  · obtain ⟨b, digits, hdigits⟩ := List.exists_cons_of_ne_nil hfraction
    have hb : isDigit b = true := n.fractionDigits b (hdigits ▸ List.mem_cons_self)
    rw [if_neg hfraction, List.append_assoc, List.cons_append, behindDigits, if_pos rfl,
      ← fraction_digits n.fractionDigits (fun b hb => (hhead b hb).1), hdigits, List.cons_append,
      afterPoint, if_pos hb]

theorem integer_behindWhole (h : Ends rest) (positive : Bool) (m : Nat) :
    integer positive m (n.behindWhole ++ rest) =
      if n.fraction = [] ∧ n.power = none then .ok (integer.whole positive m, rest)
      else behindDigits positive m 0 (n.behindWhole ++ rest) := by
  by_cases hfraction : n.fraction = []
  · rw [behindWhole, if_pos hfraction, List.nil_append]
    cases hpower : n.power with
    | none =>
      rw [if_pos ⟨hfraction, rfl⟩]
      cases rest with
      | nil => rfl
      | cons b rest =>
        obtain ⟨hdigit, hpoint, hmark⟩ := h b rfl
        show integer positive m (b :: rest) = _
        rw [integer, hdigit, if_neg Bool.false_ne_true, integer.finish, if_neg hpoint, hmark,
          if_neg Bool.false_ne_true]
    | some p =>
      obtain ⟨hdigit, hpoint⟩ := of_isExponentMark p.isMark
      rw [if_neg (by simp)]
      show integer positive m (p.mark :: (p.signText ++ p.digits ++ rest)) =
        behindDigits positive m 0 (p.mark :: (p.signText ++ p.digits ++ rest))
      rw [integer, hdigit, if_neg Bool.false_ne_true, integer.finish, if_neg hpoint,
        if_pos p.isMark, behindDigits, if_neg hpoint, afterDigits, if_pos p.isMark]
  · have hpoint : isDigit point = false := rfl
    rw [if_neg (fun h => hfraction h.1), behindWhole, if_neg hfraction, List.append_assoc,
      List.cons_append, integer, hpoint, if_neg Bool.false_ne_true, integer.finish, if_pos rfl,
      behindDigits, if_pos rfl]

/-- Behind its sign a numeral is read with all its digits. -/
theorem number_unsigned (h : Ends rest) :
    Json.number (!n.negative) (n.unsigned ++ rest) = deliver n.number rest := by
  have hwhole : integer (!n.negative) 0 (n.whole ++ (n.behindWhole ++ rest)) =
      deliver n.number rest := by
    rw [integer_digits n.wholeDigits.2 (n.head_behindWhole h), number]
    show (if n.taken.2 = [] then integer _ n.taken.1 _ else behindDigits _ n.taken.1 _ _) = _
    have hbehind := n.behindDigits_append h (!n.negative) n.taken.1
    by_cases hleft : n.taken.2 = []
    · rw [if_pos hleft, n.integer_behindWhole h]
      by_cases hbare : n.fraction = [] ∧ n.power = none
      · have hsignificand : n.significand = n.taken.1 := by
          rw [significand, takenBehind, hbare.1]
          rfl
        rw [if_pos hbare, if_pos ⟨hbare.1, hbare.2, hleft⟩, hsignificand, integer.whole]
        cases n.negative <;> rfl
      · rw [if_neg hbare, if_neg fun hall => hbare ⟨hall.1, hall.2.1⟩, hbehind, scale, hleft]
        rfl
    · rw [if_neg hleft, if_neg fun hall => hleft hall.2.2, hbehind]
      rfl
  have hhead := n.head_behindWhole h
  rw [← hwhole, unsigned, List.append_assoc]
  rcases n.whole_cases with hzero | ⟨b, digits, hdigits, hne, hb, -⟩
  · rw [hzero, List.singleton_append, integer_first rfl, Json.number.eq_def]
    dsimp only
    rw [if_pos rfl]
    cases hs : n.behindWhole ++ rest with
    | nil => rfl
    | cons c s =>
      dsimp only
      rw [hhead c (by rw [hs]; rfl), if_neg Bool.false_ne_true]
      rfl
  · rw [hdigits, List.cons_append, integer_first hb, Json.number.eq_def]
    dsimp only
    rw [if_neg hne, if_pos hb]

/-- A numeral starts with its sign or a digit. -/
theorem unsigned_cases : ∃ b s, n.unsigned = b :: s ∧ isDigit b = true := by
  obtain ⟨b, digits, hdigits, hb, -⟩ := n.wholeDigits.cases
  exact ⟨b, digits ++ n.behindWhole, by rw [unsigned, hdigits, List.cons_append], hb⟩

/-- A numeral behind white space is read for its number. -/
theorem signed_append {blanks : Octets} (hblanks : Blanks blanks) (h : Ends rest) :
    signed (blanks ++ (n.text ++ rest)) = deliver n.number rest := by
  obtain ⟨b, s, hunsigned, hb⟩ := n.unsigned_cases
  have hnumber := n.number_unsigned h
  rw [signed, text]
  cases hnegative : n.negative with
  | true =>
    rw [hnegative] at hnumber
    rw [if_pos rfl, List.singleton_append, List.cons_append, skipBlanks_append_cons hblanks rfl]
    exact hnumber
  | false =>
    obtain ⟨hblank, hminus, -⟩ := of_isDigit hb
    rw [hnegative, hunsigned, List.cons_append] at hnumber
    rw [if_neg Bool.false_ne_true, List.nil_append, hunsigned, List.cons_append,
      skipBlanks_append_cons hblanks hblank]
    dsimp only
    rw [if_neg hminus, if_pos hb]
    exact hnumber

end Numeral

end CowArrays.Json
