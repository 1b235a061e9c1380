import CowArrays.Proofs.Json.Lists
import CowArrays.Proofs.Json.Numerals

/-!
Values of one kind: truth values, indices and scalars, with what they say. The reader of a kind
reads all values of its kind, wherever they stand, and refuses the well-formed values of any other.
-/

namespace CowArrays.Json

variable {α : Type} {w blanks rest : Octets}

def SaysBool (w : Octets) (b : Bool) : Prop := w = word (if b then "true" else "false")

/-- A natural number below the limit, as digits without a zero in front. -/
structure SaysIndex (w : Octets) (n : Nat) : Prop where
  digits : AreDigits w
  noLeadingZero : w.head? = some 0x30 → w = [0x30]
  value : valueFrom 0 w = n
  below : n < indexLimit

/-- The scalar of a numeral, which may be too large to have one. -/
def Numeral.scalar (n : Numeral) : Option (Scalar .double) :=
  n.number.map fun
    | .index k => Scalar.ofNat k
    | .scalar x => x

def SaysScalar (w : Octets) (x : Scalar .double) : Prop :=
  ∃ n : Numeral, w = n.text ∧ n.scalar = some x

/-- What a reader makes of well-formed values: it reads those that say something, and no others. -/
structure Understands (value : Octets → Reads α) (meaning : Octets → α → Prop) : Prop where
  accepts : ∀ {w x}, meaning w x → Spells value w x
  refuses : ∀ {w blanks rest}, IsValue w → (∀ x, ¬meaning w x) → Blanks blanks → Ends rest →
    ∃ fault, value (blanks ++ (w ++ rest)) = .error fault

/-! ### First octets -/

theorem Numeral.text_cases (n : Numeral) :
    ∃ b s, n.text = b :: s ∧ (b = minus ∨ isDigit b = true) := by
  obtain ⟨b, s, hunsigned, hb⟩ := n.unsigned_cases
  rw [text]
  split
  · exact ⟨minus, n.unsigned, rfl, .inl rfl⟩
  · exact ⟨b, s, hunsigned, .inr hb⟩

theorem Numeral.starts (n : Numeral) : Starts n.text := by
  obtain ⟨b, s, htext, rfl | hb⟩ := n.text_cases
  · exact ⟨minus, s, htext, by decide⟩
  · obtain ⟨hblank, -, hclose⟩ := of_isDigit hb
    exact ⟨b, s, htext, hblank, hclose⟩

/-- Values that are no words and no numbers are known by their first octet. -/
theorem IsValue.cases_head (h : IsValue w) : w = word "null" ∨
    (∃ b : Bool, w = word (if b then "true" else "false")) ∨ (∃ n : Numeral, w = n.text) ∨
      ∃ b s, w = b :: s ∧ (b = quote ∨ b = openList ∨ b = openObject) := by
  cases h with
  | null => exact .inl rfl
  | bool b => exact .inr (.inl ⟨b, rfl⟩)
  | number n => exact .inr (.inr (.inl ⟨n, rfl⟩))
  | string => exact .inr (.inr (.inr ⟨_, _, rfl, .inl rfl⟩))
  | list h => cases h <;> exact .inr (.inr (.inr ⟨_, _, rfl, .inr (.inl rfl)⟩))
  | object h => cases h <;> exact .inr (.inr (.inr ⟨_, _, rfl, .inr (.inr rfl)⟩))

/-! ### Truth values -/

theorem bool_refuses (hblanks : Blanks blanks) {b : UInt8}
    (hb : isBlank b = false ∧ b ≠ 0x74 ∧ b ≠ 0x66) (s : Octets) :
    bool (blanks ++ b :: s) = .error (refuse b s) := by
  rw [bool, skipBlanks_append_cons hblanks hb.1]
  dsimp only
  rw [if_neg hb.2.1, if_neg hb.2.2]

theorem understands_bool : Understands bool SaysBool := by
  constructor
  case accepts =>
    rintro w b rfl
    refine ⟨?_, fun {blanks rest} hblanks _ => ?_⟩
    · cases b <;> exact ⟨_, _, rfl, by decide⟩
    · cases b with
      | true =>
        show bool (blanks ++ 0x74 :: (word "rue" ++ rest)) = _
        rw [bool, skipBlanks_append_cons hblanks rfl]
        dsimp only
        rw [if_pos rfl, expectWord_append]
        rfl
      | false =>
        have hne : (0x66 : UInt8) ≠ 0x74 := by decide
        show bool (blanks ++ 0x66 :: (word "alse" ++ rest)) = _
        rw [bool, skipBlanks_append_cons hblanks rfl]
        dsimp only
        rw [if_neg hne, if_pos rfl, expectWord_append]
        rfl
  case refuses =>
    intro w blanks rest hw hmeaning hblanks _
    rcases hw.cases_head with rfl | ⟨b, rfl⟩ | ⟨n, rfl⟩ | ⟨b, s, rfl, hb⟩
    · exact ⟨_, bool_refuses hblanks (by decide) (word "ull" ++ rest)⟩
    · exact absurd rfl (hmeaning b)
    · obtain ⟨b, s, htext, hb⟩ := n.text_cases
      rw [htext]
      refine ⟨_, bool_refuses hblanks ?_ (s ++ rest)⟩
      rcases hb with rfl | hb
      · decide
      · exact ⟨(of_isDigit hb).1, ne_of_digit hb rfl, ne_of_digit hb rfl⟩
    · refine ⟨_, bool_refuses hblanks ?_ (s ++ rest)⟩
      rcases hb with rfl | rfl | rfl <;> decide

/-! ### Numbers -/

theorem signed_refuses (hblanks : Blanks blanks) {b : UInt8}
    (hb : isBlank b = false ∧ b ≠ minus ∧ isDigit b = false) (s : Octets) :
    signed (blanks ++ b :: s) = .error (refuse b s) := by
  rw [signed, skipBlanks_append_cons hblanks hb.1]
  dsimp only
  rw [if_neg hb.2.1, hb.2.2, if_neg Bool.false_ne_true]

/-- A value is a numeral or is refused where a number is wanted. -/
theorem numeral_or_refused (hw : IsValue w) (hblanks : Blanks blanks) :
    (∃ n : Numeral, w = n.text) ∨ ∃ fault, signed (blanks ++ (w ++ rest)) = .error fault := by
  rcases hw.cases_head with rfl | ⟨b, rfl⟩ | hn | ⟨b, s, rfl, hb⟩
  · exact .inr ⟨_, signed_refuses hblanks (by decide) (word "ull" ++ rest)⟩
  · cases b with
    | true => exact .inr ⟨_, signed_refuses hblanks (by decide) (word "rue" ++ rest)⟩
    | false => exact .inr ⟨_, signed_refuses hblanks (by decide) (word "alse" ++ rest)⟩
  · exact .inl hn
  · refine .inr ⟨_, signed_refuses hblanks ?_ (s ++ rest)⟩
    rcases hb with rfl | rfl | rfl <;> decide

theorem Numeral.scalar_append (n : Numeral) (hblanks : Blanks blanks) (h : Ends rest) :
    Json.scalar (blanks ++ (n.text ++ rest)) = match n.scalar with
      | some x => .ok (x, rest)
      | none => .error .malformed := by
  rw [Json.scalar, n.signed_append hblanks h, scalar]
  cases n.number with
  | none => rfl
  | some x => cases x <;> rfl

theorem understands_scalar : Understands scalar SaysScalar := by
  constructor
  case accepts =>
    rintro w x ⟨n, rfl, hx⟩
    refine ⟨n.starts, fun {blanks rest} hblanks hends => ?_⟩
    rw [n.scalar_append hblanks hends, hx]
  case refuses =>
    intro w blanks rest hw hmeaning hblanks hends
    rcases numeral_or_refused hw hblanks with ⟨n, rfl⟩ | ⟨fault, hfault⟩
    · rw [n.scalar_append hblanks hends]
      cases hx : n.scalar with
      | none => exact ⟨_, rfl⟩
      | some x => exact absurd ⟨n, rfl, hx⟩ (hmeaning x)
    · exact ⟨fault, by rw [scalar, hfault]⟩

/-! ### Indices -/

theorem le_valueFrom (m : Nat) (digits : Octets) : m ≤ valueFrom m digits := by
  induction digits generalizing m with
  | nil => exact Nat.le_refl m
  | cons b digits ih => exact Nat.le_trans (by omega) (ih (10 * m + digit b))

theorem takeDigits_of_lt {m : Nat} {digits : Octets} (h : valueFrom m digits < significandLimit) :
    takeDigits m digits = (valueFrom m digits, []) := by
  induction digits generalizing m with
  | nil => rfl
  | cons b digits ih =>
    have hnext : 10 * m + digit b < significandLimit := Nat.lt_of_le_of_lt (le_valueFrom _ digits) h
    rw [takeDigits, if_pos hnext]
    exact ih h

theorem valueFrom_of_taken {m : Nat} {digits : Octets} (hm : m < significandLimit)
    (h : (takeDigits m digits).2 = []) : valueFrom m digits < significandLimit := by
  induction digits generalizing m with
  | nil => exact hm
  | cons b digits ih =>
    rw [takeDigits] at h
    split at h
    · exact ih ‹_› h
    · cases h

/-- Only digits alone are all digits. -/
theorem Numeral.bare_of_digits {n : Numeral} (h : ∀ b ∈ n.text, isDigit b = true) :
    n.negative = false ∧ n.fraction = [] ∧ n.power = none := by
  have hnot {b : UInt8} (hmem : b ∈ n.text) (hb : isDigit b = false) : False := by
    rw [h b hmem] at hb
    cases hb
  refine ⟨?_, ?_, ?_⟩
  · by_contra hnegative
    exact hnot (b := minus) (by simp [text, hnegative]) rfl
  · by_contra hfraction
    exact hnot (b := point) (by simp [text, unsigned, behindWhole, hfraction]) rfl
  · cases hpower : n.power with
    | none => rfl
    | some p =>
      refine (hnot (b := p.mark) ?_ (of_isExponentMark p.isMark).1).elim
      simp [text, unsigned, behindWhole, hpower, Power.text]

theorem Numeral.text_of_bare {n : Numeral} (hnegative : n.negative = false)
    (hfraction : n.fraction = []) (hpower : n.power = none) : n.text = n.whole := by
  simp [text, unsigned, behindWhole, hnegative, hfraction, hpower]

/-- A numeral is taken for an index where it is written as one. -/
theorem Numeral.number_eq_index_iff {n : Numeral} {k : Nat} :
    n.number = some (.index k) ↔ SaysIndex n.text k := by
  constructor
  · -- an index is bare and has no sign, and all its digits were taken
    intro h
    rw [number] at h
    split at h
    · rename_i hbare
      obtain ⟨hfraction, hpower, hleft⟩ := hbare
      cases hnegative : n.negative with
      | true => simp [hnegative] at h
      | false =>
        have hbelow := valueFrom_of_taken (by decide) hleft
        have hvalue : n.significand = valueFrom 0 n.whole := by
          rw [significand, takenBehind, hfraction, takeDigits, taken, takeDigits_of_lt hbelow]
        have hk : n.significand = k := by simpa [hnegative] using h
        rw [text_of_bare hnegative hfraction hpower]
        exact ⟨n.wholeDigits, n.noLeadingZero, hvalue ▸ hk, hk ▸ hvalue ▸ hbelow⟩
    · cases hx : scaled (!n.negative) n.significand n.scale n.power <;> simp [hx] at h
  · rintro ⟨hdigits, -, hvalue, hbelow⟩
    obtain ⟨hnegative, hfraction, hpower⟩ := bare_of_digits hdigits.2
    rw [text_of_bare hnegative hfraction hpower] at hvalue
    have htaken : n.taken = (k, []) := by
      rw [taken, takeDigits_of_lt (by rw [hvalue]; exact hbelow), hvalue]
    have hsignificand : n.significand = k := by
      rw [significand, takenBehind, hfraction, htaken]
      rfl
    rw [number, if_pos ⟨hfraction, hpower, by rw [htaken]⟩, hnegative, hsignificand]
    rfl

theorem SaysIndex.numeral {k : Nat} (h : SaysIndex w k) : ∃ n : Numeral, w = n.text :=
  ⟨⟨false, w, [], none, h.digits, h.noLeadingZero, nofun⟩, by
    simp [Numeral.text, Numeral.unsigned, Numeral.behindWhole]⟩

theorem SaysIndex.isValue {k : Nat} (h : SaysIndex w k) : IsValue w := by
  obtain ⟨n, rfl⟩ := h.numeral
  exact .number n

theorem understands_index : Understands index SaysIndex := by
  constructor
  case accepts =>
    intro w k h
    obtain ⟨n, rfl⟩ := h.numeral
    refine ⟨n.starts, fun {blanks rest} hblanks hends => ?_⟩
    rw [index, n.signed_append hblanks hends, Numeral.number_eq_index_iff.2 h]
    rfl
  case refuses =>
    intro w blanks rest hw hmeaning hblanks hends
    rcases numeral_or_refused hw hblanks with ⟨n, rfl⟩ | ⟨fault, hfault⟩
    · rw [index, n.signed_append hblanks hends]
      cases hx : n.number with
      | none => exact ⟨_, rfl⟩
      | some x =>
        cases x with
        | index k => exact absurd (Numeral.number_eq_index_iff.1 hx) (hmeaning k)
        | scalar x => exact ⟨_, rfl⟩
    · exact ⟨fault, by rw [index, hfault]⟩

theorem valueFrom_octetOf {cs : List Char} (h : ∀ c ∈ cs, c.isDigit = true) (m : Nat) :
    valueFrom m (cs.map octetOf) = Decimal.ofDigitsFrom m cs := by
  induction cs generalizing m with
  | nil => rfl
  | cons c cs ih =>
    obtain ⟨hc, hcs⟩ := List.forall_mem_cons.1 h
    show valueFrom (10 * m + digit (octetOf c)) (cs.map octetOf) = _
    rw [digit_octetOf hc]
    exact ih hcs _

theorem saysIndex_toDigits {n : Nat} (hn : n < indexLimit) :
    SaysIndex ((Nat.toDigits 10 n).map octetOf) n := by
  have hall : ∀ c ∈ Nat.toDigits 10 n, c.isDigit = true := fun _ hc => isDigit_of_mem_toDigits hc
  constructor
  case digits => exact areDigits_map hall Nat.toDigits_ne_nil
  case noLeadingZero =>
    refine noLeadingZero_map hall fun hhead => ?_
    cases hdigits : Nat.toDigits 10 n with
    | nil => exact absurd hdigits Nat.toDigits_ne_nil
    | cons c cs =>
      rw [hdigits] at hhead
      obtain rfl := Option.some.inj hhead
      rw [(toDigits_leading hdigits).2]
  case value => exact (valueFrom_octetOf hall 0).trans (Decimal.ofDigits_toDigits n)
  case below => exact hn

end CowArrays.Json
