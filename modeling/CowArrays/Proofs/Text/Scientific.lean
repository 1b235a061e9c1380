import CowArrays.Decimal.Style
import CowArrays.Proofs.Text.Numerals

/-!
Scalars in scientific notation: whatever a scalar is, its text is a literal, made of visible
characters without a comma.
-/

namespace CowArrays

variable {p : Precision}

/-- Whether a character can stand in a field of a line: it is visible and no comma. -/
def Text.IsField (c : Char) : Prop := IsVisible c ∧ c ≠ ','

instance (c : Char) : Decidable (Text.IsField c) := inferInstanceAs (Decidable (_ ∧ _))

open Text (IsField)

theorem field_of_all {s : String} (h : (s.toList.all fun c => decide (IsField c)) = true) :
    ∀ c ∈ s.toList, IsField c :=
  fun c hc => of_decide_eq_true (List.all_eq_true.1 h c hc)

theorem field_of_isDigit {c : Char} (h : c.isDigit = true) : IsField c :=
  ⟨visible_of_isDigit h, ne_of_isDigit h rfl⟩

theorem field_of_mem_toDigits {n : Nat} {c : Char} (h : c ∈ Nat.toDigits 10 n) : IsField c :=
  field_of_isDigit (isDigit_of_mem_toDigits h)

/-! ### Decimals -/

namespace Decimal

/-- What stands behind the leading digit: nothing, or a point and the other digits. -/
def behindPoint (rest : List Char) : List Char := if rest = [] then [] else '.' :: rest

theorem toList_writeScientific (d : Decimal) {first : Char} {rest : List Char}
    (h : d.text = first :: rest) : (NumberStyle.writeScientific false d).toList =
      first :: behindPoint rest ++ 'e' :: (toString d.leading).toList := by
  cases rest <;> simp [NumberStyle.writeScientific, h, behindPoint]

theorem text_cases (d : Decimal) : ∃ first rest, d.text = first :: rest ∧
    first.isDigit = true ∧ (∀ c ∈ rest, c.isDigit = true) ∧ ofDigits (first :: rest) = d.digits := by
  have hvalue : ofDigits d.text = d.digits := ofDigits_toDigits d.digits
  have hall : ∀ c ∈ d.text, c.isDigit = true := fun _ hc => isDigit_of_mem_toDigits hc
  cases htext : d.text with
  | nil => exact absurd htext Nat.toDigits_ne_nil
  | cons first rest =>
    rw [htext] at hvalue hall
    obtain ⟨hfirst, hrest⟩ := List.forall_mem_cons.1 hall
    exact ⟨first, rest, rfl, hfirst, hrest, hvalue⟩

theorem read_digits {first : Char} {rest mark : List Char} (hfirst : first.isDigit = true)
    (hrest : ∀ c ∈ rest, c.isDigit = true) {i : Int} (hmark : readExponent ('e' :: mark) = some i) :
    read (first :: behindPoint rest ++ 'e' :: mark) =
      some ⟨ofDigits (first :: rest), i - rest.length⟩ := by
  have hsingle : ∀ c ∈ [first], c.isDigit = true := by simpa using hfirst
  -- a lone digit has no point, and its exponent stands right behind it
  by_cases hnil : rest = []
  · have ⟨hwhole, hbehind⟩ := takeWhile_isDigit hsingle (d := 'e') rfl mark
    have hread : read ([first] ++ 'e' :: mark) = some ⟨ofDigits [first], i⟩ := by
      rw [read, hwhole, hbehind]
      simp [hmark]
    simpa [behindPoint, hnil] using hread
  · have ⟨hwhole, hbehind⟩ := takeWhile_isDigit hsingle (d := '.') rfl (rest ++ 'e' :: mark)
    have ⟨hfraction, hbehind'⟩ := takeWhile_isDigit hrest (d := 'e') rfl mark
    have hread : read ([first] ++ '.' :: (rest ++ 'e' :: mark)) =
        some ⟨ofDigits ([first] ++ rest), i - rest.length⟩ := by
      rw [read, hwhole, hbehind]
      simp [hfraction, hbehind', hmark]
    simpa [behindPoint, hnil] using hread

/-- Scientific notation reads back with all its digits. -/
theorem read_writeScientific (d : Decimal) :
    read (NumberStyle.writeScientific false d).toList =
      some ⟨d.digits, d.leading - (d.text.length - 1 : Nat)⟩ := by
  obtain ⟨first, rest, htext, hfirst, hrest, hvalue⟩ := d.text_cases
  rw [toList_writeScientific d htext, read_digits hfirst hrest (readExponent_toString d.leading),
    hvalue, htext]
  rfl

theorem field_of_mem_toString {i : Int} {c : Char} (h : c ∈ (toString i).toList) : IsField c := by
  rw [toList_toString_int] at h
  split at h
  · exact field_of_mem_toDigits h
  · rcases List.mem_cons.1 h with rfl | h
    · decide
    · exact field_of_mem_toDigits h

theorem field_of_mem_writeScientific {d : Decimal} {c : Char}
    (h : c ∈ (NumberStyle.writeScientific false d).toList) : IsField c := by
  obtain ⟨first, rest, htext, hfirst, hrest, -⟩ := d.text_cases
  have hbehind : ∀ c ∈ behindPoint rest, IsField c := by
    intro c hc
    unfold behindPoint at hc
    split at hc
    · cases hc
    · rcases List.mem_cons.1 hc with rfl | hc
      · decide
      · exact field_of_isDigit (hrest c hc)
  rw [toList_writeScientific d htext] at h
  rcases List.mem_append.1 h with h | h
  · rcases List.mem_cons.1 h with rfl | h
    · exact field_of_isDigit hfirst
    · exact hbehind c h
  · rcases List.mem_cons.1 h with rfl | h
    · decide
    · exact field_of_mem_toString h

theorem head_writeScientific (d : Decimal) : ∃ first rest,
    (NumberStyle.writeScientific false d).toList = first :: rest ∧ first.isDigit = true := by
  obtain ⟨first, rest, htext, hfirst, -⟩ := d.text_cases
  exact ⟨first, _, toList_writeScientific d htext, hfirst⟩

end Decimal

/-! ### Scalars -/

namespace Literal

/-- A number that starts with a digit, behind an optional minus. -/
theorem read_signed {first : Char} {rest : List Char} {d : Decimal}
    (h : Decimal.read (first :: rest) = some d) (hfirst : first.isDigit = true) (negative : Bool) :
    read ((if negative then "-" else "").toList ++ first :: rest) = some (.number negative d) := by
  have hplus : first ≠ '+' := ne_of_isDigit hfirst rfl
  have hminus : first ≠ '-' := ne_of_isDigit hfirst rfl
  cases negative with
  | true => simp [read, h]
  | false =>
    show read (first :: rest) = _
    unfold read
    split
    rename_i negative body hsigned
    split at hsigned
    · rename_i heq
      exact absurd (List.cons.inj heq).1 hplus
    · rename_i heq
      exact absurd (List.cons.inj heq).1 hminus
    · obtain ⟨rfl, rfl⟩ := Prod.mk.inj hsigned
      rw [h]

end Literal

namespace Scalar

theorem scientific_cases (x : Scalar p) : x.scientific = "NaN" ∨ x.scientific = x.signText ++ "inf" ∨
    x.scientific = x.signText ++ "0.000000000000e0" ∨
    ∃ d, x.scientific = x.signText ++ NumberStyle.writeScientific false d := by
  unfold scientific writeWith
  split
  · exact .inl rfl
  · split
    · exact .inr (.inl rfl)
    · refine .inr (.inr ?_)
      by_cases hzero : x.isZero = true
      · exact .inl (congrArg (x.signText ++ ·) (if_pos hzero))
      · exact .inr ⟨Decimal.rounded 13 (p.units x.code) p.one,
          congrArg (x.signText ++ ·) (if_neg hzero)⟩

/-- Whatever a scalar is, its text is a literal. -/
theorem read_scientific (x : Scalar p) : ∃ l, Literal.read x.scientific.toList = some l := by
  rcases x.scientific_cases with h | h | h | ⟨d, h⟩ <;> rw [h]
  · exact ⟨.nan false, by decide⟩
  · unfold signText
    cases x.negative
    · exact ⟨.infinite false, by decide⟩
    · exact ⟨.infinite true, by decide⟩
  · have hread : Decimal.read "0.000000000000e0".toList = some ⟨0, -12⟩ := by decide
    rw [String.toList_append]
    exact ⟨_, Literal.read_signed hread rfl x.negative⟩
  · obtain ⟨first, rest, hbody, hfirst⟩ := d.head_writeScientific
    have hread := d.read_writeScientific
    rw [hbody] at hread
    rw [String.toList_append, hbody]
    exact ⟨_, Literal.read_signed hread hfirst x.negative⟩

theorem field_of_mem_scientific {x : Scalar p} {c : Char} (h : c ∈ x.scientific.toList) :
    IsField c := by
  have hsign : ∀ c ∈ x.signText.toList, IsField c := by
    unfold signText
    cases x.negative <;> exact field_of_all (by decide)
  have hbehind {body : String} (hbody : ∀ c ∈ body.toList, IsField c)
      (h : c ∈ (x.signText ++ body).toList) : IsField c := by
    rw [String.toList_append] at h
    exact (List.mem_append.1 h).elim (hsign c) (hbody c)
  rcases x.scientific_cases with heq | heq | heq | ⟨d, heq⟩ <;> rw [heq] at h
  · have hword : ∀ c ∈ "NaN".toList, IsField c := field_of_all (by decide)
    exact hword c h
  · exact hbehind (field_of_all (by decide)) h
  · exact hbehind (field_of_all (by decide)) h
  · exact hbehind (fun _ hc => Decimal.field_of_mem_writeScientific hc) h

end Scalar
end CowArrays
