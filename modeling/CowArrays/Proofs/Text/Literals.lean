import CowArrays.Proofs.Text.Numerals

/-!
The grammar of literals of scalars: an optional sign, and digits with an optional point and an
optional exponent, or a word for infinity or NaN in any case. Reading accepts exactly these texts.
-/

namespace CowArrays

open Decimal (ofDigits readExponent)

/-- Nothing, or an exponent behind its mark. -/
inductive SpellsExponent : List Char → Int → Prop
  | absent : SpellsExponent [] 0
  | bare {mark : Char} {digits : List Char} (marked : mark = 'e' ∨ mark = 'E')
      (nonempty : digits ≠ []) (all : ∀ c ∈ digits, c.isDigit = true) :
      SpellsExponent (mark :: digits) (ofDigits digits)
  | plus {mark : Char} {digits : List Char} (marked : mark = 'e' ∨ mark = 'E')
      (nonempty : digits ≠ []) (all : ∀ c ∈ digits, c.isDigit = true) :
      SpellsExponent (mark :: '+' :: digits) (ofDigits digits)
  | minus {mark : Char} {digits : List Char} (marked : mark = 'e' ∨ mark = 'E')
      (nonempty : digits ≠ []) (all : ∀ c ∈ digits, c.isDigit = true) :
      SpellsExponent (mark :: '-' :: digits) (-(ofDigits digits : Int))

/-- At least one digit in all, before or behind an optional point, and an optional exponent. -/
inductive SpellsDecimal : List Char → Decimal → Prop
  | whole {whole exponent : List Char} {e : Int} (nonempty : whole ≠ [])
      (all : ∀ c ∈ whole, c.isDigit = true) (h : SpellsExponent exponent e) :
      SpellsDecimal (whole ++ exponent) ⟨ofDigits whole, e⟩
  | point {whole fraction exponent : List Char} {e : Int} (nonempty : ¬(whole = [] ∧ fraction = []))
      (before : ∀ c ∈ whole, c.isDigit = true) (behind : ∀ c ∈ fraction, c.isDigit = true)
      (h : SpellsExponent exponent e) : SpellsDecimal (whole ++ '.' :: (fraction ++ exponent))
        ⟨ofDigits (whole ++ fraction), e - fraction.length⟩

inductive SpellsUnsigned (negative : Bool) : List Char → Literal → Prop
  | number {cs : List Char} {d : Decimal} (h : SpellsDecimal cs d) :
      SpellsUnsigned negative cs (.number negative d)
  | infinite {cs : List Char} (h : cs.map Char.toLower = ['i', 'n', 'f'] ∨
      cs.map Char.toLower = ['i', 'n', 'f', 'i', 'n', 'i', 't', 'y']) :
      SpellsUnsigned negative cs (.infinite negative)
  | nan {cs : List Char} (h : cs.map Char.toLower = ['n', 'a', 'n']) :
      SpellsUnsigned negative cs (.nan negative)

inductive SpellsLiteral : List Char → Literal → Prop
  | bare {cs : List Char} {l : Literal} (h : SpellsUnsigned false cs l) : SpellsLiteral cs l
  | plus {cs : List Char} {l : Literal} (h : SpellsUnsigned false cs l) :
      SpellsLiteral ('+' :: cs) l
  | minus {cs : List Char} {l : Literal} (h : SpellsUnsigned true cs l) :
      SpellsLiteral ('-' :: cs) l

/-! ### Decimals -/

theorem span_isDigit {digits rest : List Char} (hall : ∀ c ∈ digits, c.isDigit = true)
    (hrest : ∀ c ∈ rest.head?, c.isDigit = false) :
    (digits ++ rest).takeWhile Char.isDigit = digits ∧
      (digits ++ rest).dropWhile Char.isDigit = rest := by
  cases rest with
  | nil =>
    rw [List.takeWhile_append_of_pos hall, List.dropWhile_append_of_pos hall]
    simp
  | cons c rest => exact takeWhile_isDigit hall (hrest c rfl) rest

theorem exists_span (cs : List Char) : ∃ digits rest, cs = digits ++ rest ∧
    (∀ c ∈ digits, c.isDigit = true) ∧ ∀ c ∈ rest.head?, c.isDigit = false := by
  refine ⟨cs.takeWhile Char.isDigit, cs.dropWhile Char.isDigit,
    List.takeWhile_append_dropWhile.symm, List.all_eq_true.1 List.all_takeWhile, fun c hc => ?_⟩
  have hnot := List.head?_dropWhile_not Char.isDigit cs
  rw [hc] at hnot
  simpa using hnot

/-- The sign of a text, which is gone from the rest. -/
theorem sign_cases (cs : List Char) : (∃ rest, cs = '+' :: rest) ∨ (∃ rest, cs = '-' :: rest) ∨
    (∀ rest, cs ≠ '+' :: rest) ∧ ∀ rest, cs ≠ '-' :: rest := by
  by_cases hplus : ∃ rest, cs = '+' :: rest
  · exact .inl hplus
  · by_cases hminus : ∃ rest, cs = '-' :: rest
    · exact .inr (.inl hminus)
    · exact .inr (.inr ⟨fun rest h => hplus ⟨rest, h⟩, fun rest h => hminus ⟨rest, h⟩⟩)

namespace Decimal

def exponentOf (sign : Int) (digits : List Char) : Option Int :=
  if digits ≠ [] ∧ digits.all Char.isDigit then some (sign * ofDigits digits) else none

theorem exponentOf_eq_some_iff {sign e : Int} {digits : List Char} :
    exponentOf sign digits = some e ↔
      digits ≠ [] ∧ (∀ c ∈ digits, c.isDigit = true) ∧ e = sign * ofDigits digits := by
  rw [exponentOf, ← List.all_eq_true]
  split
  · rename_i h
    constructor
    · intro heq
      exact ⟨h.1, h.2, (Option.some.inj heq).symm⟩
    · rintro ⟨-, -, rfl⟩
      rfl
  · rename_i h
    exact ⟨nofun, fun ⟨hsome, hall, _⟩ => absurd ⟨hsome, hall⟩ h⟩

section

variable {mark : Char} (marked : mark = 'e' ∨ mark = 'E')

include marked

theorem readExponent_signed_plus (rest : List Char) :
    readExponent (mark :: '+' :: rest) = exponentOf 1 rest := by
  rw [readExponent, if_pos marked]
  rfl

theorem readExponent_signed_minus (rest : List Char) :
    readExponent (mark :: '-' :: rest) = exponentOf (-1) rest := by
  rw [readExponent, if_pos marked]
  rfl

theorem readExponent_bare {rest : List Char} (hplus : ∀ r, rest ≠ '+' :: r)
    (hminus : ∀ r, rest ≠ '-' :: r) : readExponent (mark :: rest) = exponentOf 1 rest := by
  rw [readExponent, if_pos marked]
  · rfl
  · exact hplus
  · exact hminus

end

theorem readExponent_eq_some_iff {cs : List Char} {e : Int} :
    readExponent cs = some e ↔ SpellsExponent cs e := by
  constructor
  · intro h
    cases cs with
    | nil =>
      obtain rfl : 0 = e := Option.some.inj h
      exact .absent
    | cons mark rest =>
      by_cases marked : mark = 'e' ∨ mark = 'E'
      · rcases sign_cases rest with ⟨digits, rfl⟩ | ⟨digits, rfl⟩ | ⟨hplus, hminus⟩
        · rw [readExponent_signed_plus marked] at h
          obtain ⟨hsome, hall, rfl⟩ := exponentOf_eq_some_iff.1 h
          rw [Int.one_mul]
          exact .plus marked hsome hall
        · rw [readExponent_signed_minus marked] at h
          obtain ⟨hsome, hall, rfl⟩ := exponentOf_eq_some_iff.1 h
          rw [Int.neg_one_mul]
          exact .minus marked hsome hall
        · rw [readExponent_bare marked hplus hminus] at h
          obtain ⟨hsome, hall, rfl⟩ := exponentOf_eq_some_iff.1 h
          rw [Int.one_mul]
          exact .bare marked hsome hall
      · have hnone : readExponent (mark :: rest) = none := if_neg marked
        rw [hnone] at h
        cases h
  · rintro (_ | ⟨marked, hsome, hall⟩ | ⟨marked, hsome, hall⟩ | ⟨marked, hsome, hall⟩)
    · rfl
    · rename_i mark digits
      have hplus : ∀ r, digits ≠ '+' :: r := fun r heq =>
        Bool.false_ne_true (hall '+' (heq ▸ List.mem_cons_self))
      have hminus : ∀ r, digits ≠ '-' :: r := fun r heq =>
        Bool.false_ne_true (hall '-' (heq ▸ List.mem_cons_self))
      rw [readExponent_bare marked hplus hminus]
      exact exponentOf_eq_some_iff.2 ⟨hsome, hall, (Int.one_mul _).symm⟩
    · rw [readExponent_signed_plus marked]
      exact exponentOf_eq_some_iff.2 ⟨hsome, hall, (Int.one_mul _).symm⟩
    · rw [readExponent_signed_minus marked]
      exact exponentOf_eq_some_iff.2 ⟨hsome, hall, (Int.neg_one_mul _).symm⟩

/-- An exponent does not start with a digit, and not with a point. -/
theorem head_of_spellsExponent {cs : List Char} {e : Int} (h : SpellsExponent cs e) :
    ∀ c ∈ cs.head?, c.isDigit = false ∧ c ≠ '.' := by
  have hmark {mark : Char} (marked : mark = 'e' ∨ mark = 'E') {rest : List Char} :
      ∀ c ∈ (mark :: rest).head?, c.isDigit = false ∧ c ≠ '.' := by
    intro c hc
    obtain rfl := Option.some.inj hc
    rcases marked with rfl | rfl <;> decide
  cases h with
  | absent => nofun
  | bare marked _ _ => exact hmark marked
  | plus marked _ _ => exact hmark marked
  | minus marked _ _ => exact hmark marked

/-- Digits with a point behind them, digits, and what is left. -/
theorem read_point {whole fraction rest : List Char} (hwhole : ∀ c ∈ whole, c.isDigit = true)
    (hfraction : ∀ c ∈ fraction, c.isDigit = true) (hrest : ∀ c ∈ rest.head?, c.isDigit = false) :
    read (whole ++ '.' :: (fraction ++ rest)) = if whole = [] ∧ fraction = [] then none
      else (readExponent rest).map fun e =>
        ⟨ofDigits (whole ++ fraction), e - fraction.length⟩ := by
  have hpoint : ∀ c ∈ ('.' :: (fraction ++ rest)).head?, c.isDigit = false := by
    intro c hc
    obtain rfl := Option.some.inj hc
    rfl
  have ⟨htake, hdrop⟩ := span_isDigit hwhole hpoint
  have ⟨htake', hdrop'⟩ := span_isDigit hfraction hrest
  rw [read, htake, hdrop]
  simp only [htake', hdrop']

theorem read_whole {whole rest : List Char} (hwhole : ∀ c ∈ whole, c.isDigit = true)
    (hrest : ∀ c ∈ rest.head?, c.isDigit = false ∧ c ≠ '.') :
    read (whole ++ rest) = if whole = [] then none
      else (readExponent rest).map fun e => ⟨ofDigits whole, e⟩ := by
  have ⟨htake, hdrop⟩ := span_isDigit hwhole fun c hc => (hrest c hc).1
  rw [read, htake, hdrop]
  split
  rename_i fraction left heq
  split at heq
  · exact absurd rfl (hrest '.' rfl).2
  · obtain ⟨rfl, rfl⟩ := Prod.mk.inj heq
    simp

/-- Nothing is read where no digit and no point comes first. -/
theorem read_of_head {cs : List Char} (h : ∀ c ∈ cs.head?, c.isDigit = false ∧ c ≠ '.') :
    read cs = none := by
  have hnone : ∀ c ∈ ([] : List Char), c.isDigit = true := nofun
  have hread := read_whole hnone h
  rwa [List.nil_append, if_pos rfl] at hread

theorem read_eq_some_iff {cs : List Char} {d : Decimal} :
    read cs = some d ↔ SpellsDecimal cs d := by
  constructor
  · intro h
    obtain ⟨whole, rest, rfl, hwhole, hrest⟩ := exists_span cs
    by_cases hpoint : ∃ r, rest = '.' :: r
    · obtain ⟨r, rfl⟩ := hpoint
      obtain ⟨fraction, left, rfl, hfraction, hleft⟩ := exists_span r
      rw [read_point hwhole hfraction hleft] at h
      split at h
      · cases h
      · obtain ⟨e, he, rfl⟩ := Option.map_eq_some_iff.1 h
        exact .point ‹_› hwhole hfraction (readExponent_eq_some_iff.1 he)
    · have hhead : ∀ c ∈ rest.head?, c.isDigit = false ∧ c ≠ '.' := by
        intro c hc
        refine ⟨hrest c hc, ?_⟩
        rintro rfl
        exact hpoint (List.head?_eq_some_iff.1 hc)
      rw [read_whole hwhole hhead] at h
      split at h
      · cases h
      · obtain ⟨e, he, rfl⟩ := Option.map_eq_some_iff.1 h
        exact .whole ‹_› hwhole (readExponent_eq_some_iff.1 he)
  · rintro (⟨hsome, hall, hexp⟩ | ⟨hsome, hbefore, hbehind, hexp⟩)
    · rw [read_whole hall (head_of_spellsExponent hexp), if_neg hsome,
        readExponent_eq_some_iff.2 hexp]
      rfl
    · rw [read_point hbefore hbehind fun c hc => (head_of_spellsExponent hexp c hc).1, if_neg hsome,
        readExponent_eq_some_iff.2 hexp]
      rfl

end Decimal

/-! ### Literals -/

namespace Literal

def ofUnsigned (negative : Bool) (body : List Char) : Option Literal :=
  match Decimal.read body with
  | some d => some (number negative d)
  | none =>
    let word := String.ofList (body.map Char.toLower)
    if word = "inf" ∨ word = "infinity" then some (infinite negative)
    else if word = "nan" then some (nan negative)
    else none

theorem read_bare {cs : List Char} (hplus : ∀ r, cs ≠ '+' :: r) (hminus : ∀ r, cs ≠ '-' :: r) :
    read cs = ofUnsigned false cs := by
  unfold read
  split
  rename_i negative body heq
  split at heq
  · exact absurd rfl (hplus _)
  · exact absurd rfl (hminus _)
  · obtain ⟨rfl, rfl⟩ := Prod.mk.inj heq
    rfl

theorem toLower_of_isDigit {c : Char} (h : c.isDigit = true) : c.toLower = c := by
  have ⟨_, hhigh⟩ := isDigit_iff.1 h
  have hnot : ¬(c.val ≥ 'A'.val ∧ c.val ≤ 'Z'.val) := by
    rintro ⟨hcapital, -⟩
    have hle : 65 ≤ c.toNat := UInt32.le_iff_toNat_le.1 hcapital
    omega
  exact dif_neg hnot

/-- A word is no number. -/
theorem decimalRead_eq_none {cs : List Char} {first : Char} {rest : List Char}
    (h : cs.map Char.toLower = first :: rest) (hdigit : first.isDigit = false)
    (hpoint : first ≠ '.') : Decimal.read cs = none := by
  cases cs with
  | nil => cases h
  | cons c cs =>
    have hc : c.toLower = first := (List.cons.inj h).1
    have hhead : ∀ d ∈ (c :: cs).head?, d.isDigit = false ∧ d ≠ '.' := by
      intro d hd
      obtain rfl := Option.some.inj hd
      constructor
      · cases hyes : c.isDigit with
        | false => rfl
        | true =>
          have hsame := toLower_of_isDigit hyes
          rw [hc] at hsame
          rw [hsame, hyes] at hdigit
          cases hdigit
      · rintro rfl
        exact hpoint hc.symm
    exact Decimal.read_of_head hhead

theorem ofUnsigned_eq_some_iff {negative : Bool} {cs : List Char} {l : Literal} :
    ofUnsigned negative cs = some l ↔ SpellsUnsigned negative cs l := by
  have hword {ds : List Char} (word : List Char) :
      String.ofList ds = String.ofList word ↔ ds = word := by
    rw [← String.toList_inj, String.toList_ofList, String.toList_ofList]
  have hinf : String.ofList (cs.map Char.toLower) = "inf" ↔ _ := hword ['i', 'n', 'f']
  have hinfinity : String.ofList (cs.map Char.toLower) = "infinity" ↔ _ :=
    hword ['i', 'n', 'f', 'i', 'n', 'i', 't', 'y']
  have hnan : String.ofList (cs.map Char.toLower) = "nan" ↔ _ := hword ['n', 'a', 'n']
  constructor
  · intro h
    unfold ofUnsigned at h
    split at h
    · obtain rfl := Option.some.inj h
      exact .number (Decimal.read_eq_some_iff.1 ‹_›)
    · dsimp only at h
      split at h
      · rename_i hinfinite
        obtain rfl := Option.some.inj h
        exact .infinite (hinfinite.imp hinf.1 hinfinity.1)
      · split at h
        · rename_i hword
          obtain rfl := Option.some.inj h
          exact .nan (hnan.1 hword)
        · cases h
  · rintro (h | h | h)
    · rw [ofUnsigned, Decimal.read_eq_some_iff.2 h]
    · have hnone : Decimal.read cs = none := by
        rcases h with h | h
        · exact decimalRead_eq_none h rfl (by decide)
        · exact decimalRead_eq_none h rfl (by decide)
      rw [ofUnsigned, hnone]
      exact if_pos (h.imp hinf.2 hinfinity.2)
    · have hnone : Decimal.read cs = none := decimalRead_eq_none h rfl (by decide)
      have hnot : ¬(String.ofList (cs.map Char.toLower) = "inf" ∨
          String.ofList (cs.map Char.toLower) = "infinity") := by
        rw [h]
        decide
      rw [ofUnsigned, hnone]
      dsimp only
      rw [if_neg hnot, if_pos (hnan.2 h)]

/-- What stands behind a sign does not start with one. -/
theorem not_spellsUnsigned {negative : Bool} {c : Char} (hc : c = '+' ∨ c = '-')
    {rest : List Char} {l : Literal} : ¬SpellsUnsigned negative (c :: rest) l := by
  have hplain : c.isDigit = false ∧ c ≠ '.' ∧ c.toLower ≠ 'i' ∧ c.toLower ≠ 'n' := by
    rcases hc with rfl | rfl <;> decide
  have hhead : ∀ d ∈ (c :: rest).head?, d.isDigit = false ∧ d ≠ '.' := by
    intro d hd
    obtain rfl := Option.some.inj hd
    exact ⟨hplain.1, hplain.2.1⟩
  have hnone : Decimal.read (c :: rest) = none := Decimal.read_of_head hhead
  rintro (h | h | h)
  · rw [Decimal.read_eq_some_iff.2 h] at hnone
    cases hnone
  · rcases h with h | h
    · exact hplain.2.2.1 (List.cons.inj h).1
    · exact hplain.2.2.1 (List.cons.inj h).1
  · exact hplain.2.2.2 (List.cons.inj h).1

theorem read_eq_some_iff {cs : List Char} {l : Literal} :
    read cs = some l ↔ SpellsLiteral cs l := by
  constructor
  · intro h
    rcases sign_cases cs with ⟨rest, rfl⟩ | ⟨rest, rfl⟩ | ⟨hplus, hminus⟩
    · exact .plus (ofUnsigned_eq_some_iff.1 h)
    · exact .minus (ofUnsigned_eq_some_iff.1 h)
    · rw [read_bare hplus hminus] at h
      exact .bare (ofUnsigned_eq_some_iff.1 h)
  · rintro (h | h | h)
    · have hplus : ∀ r, cs ≠ '+' :: r := by
        rintro r rfl
        exact not_spellsUnsigned (.inl rfl) h
      have hminus : ∀ r, cs ≠ '-' :: r := by
        rintro r rfl
        exact not_spellsUnsigned (.inr rfl) h
      rw [read_bare hplus hminus]
      exact ofUnsigned_eq_some_iff.2 h
    · exact ofUnsigned_eq_some_iff.2 h
    · exact ofUnsigned_eq_some_iff.2 h

end Literal
end CowArrays
