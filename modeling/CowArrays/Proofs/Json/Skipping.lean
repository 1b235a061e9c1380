import CowArrays.Json.Document
import CowArrays.Proofs.Json.Numerals

/-!
Passing over values: whatever a well-formed value holds and whatever may follow it, the readers that
do not look at values leave exactly what stands behind it.
-/

namespace CowArrays.Json

/-! ### Numerals -/

theorem skipExponent_append (p : Power) {rest : Octets} (h : Ends rest) :
    skipExponent (p.signText ++ p.digits ++ rest) = .ok rest := by
  obtain ⟨b, digits, hdigits, hb, hrest⟩ := p.areDigits.cases
  have hsign : ¬(b = plus ∨ b = minus) :=
    not_or.2 ⟨ne_of_digit hb rfl, ne_of_digit hb rfl⟩
  have hdrop := dropWhile_digits hrest h.head_not_digit
  rw [skipExponent.eq_def, Power.signText, List.append_assoc, hdigits]
  cases p.sign with
  | none =>
    rw [List.nil_append, List.cons_append]
    dsimp only
    rw [if_neg hsign]
    dsimp only
    rw [if_pos hb, hdrop]
  | some up =>
    cases up with
    | true =>
      rw [List.singleton_append, List.cons_append]
      dsimp only
      rw [if_pos (.inl rfl)]
      dsimp only
      rw [if_pos hb, hdrop]
    | false =>
      rw [List.singleton_append, List.cons_append]
      dsimp only
      rw [if_pos (.inr rfl)]
      dsimp only
      rw [if_pos hb, hdrop]

namespace Numeral

variable (n : Numeral) {rest : Octets}

/-- Behind all digits comes the end, or what is no digit: the mark of a power or what follows the
numeral. -/
theorem power_cases (h : Ends rest) : (n.power.elim [] Power.text ++ rest = [] ∧ rest = []) ∨
    ∃ d t, n.power.elim [] Power.text ++ rest = d :: t ∧ d ≠ point ∧
      (if isExponentMark d then skipExponent t else .ok (d :: t)) = .ok rest := by
  cases n.power with
  | none =>
    cases rest with
    | nil => exact .inl ⟨rfl, rfl⟩
    | cons d t =>
      obtain ⟨-, hpoint, hmark⟩ := h d rfl
      exact .inr ⟨d, t, rfl, hpoint, by rw [hmark, if_neg Bool.false_ne_true]⟩
  | some p =>
    refine .inr ⟨p.mark, p.signText ++ p.digits ++ rest, rfl, (of_isExponentMark p.isMark).2, ?_⟩
    rw [if_pos p.isMark, skipExponent_append p h]

theorem skipAfterDigits_append (h : Ends rest) :
    skipAfterDigits (n.behindWhole ++ rest) = .ok rest := by
  have hhead := ends_or_mark n.power h
  rw [behindWhole]
  by_cases hfraction : n.fraction = []
  · rw [if_pos hfraction, List.nil_append, skipAfterDigits.eq_def]
    rcases n.power_cases h with ⟨hnil, rfl⟩ | ⟨d, t, hcons, hpoint, hpower⟩
    · rw [hnil]
    · rw [hcons]
      dsimp only
      rw [if_neg hpoint, hpower]
  · obtain ⟨b, digits, hdigits, hb, hrest⟩ := AreDigits.cases ⟨hfraction, n.fractionDigits⟩
    rw [if_neg hfraction, List.append_assoc, List.cons_append, hdigits, skipAfterDigits.eq_def]
    dsimp only
    rw [if_pos rfl, List.cons_append]
    dsimp only
    rw [if_pos hb, dropWhile_digits hrest fun c hc => (hhead c hc).1]
    rcases n.power_cases h with ⟨hnil, rfl⟩ | ⟨d, t, hcons, -, hpower⟩
    · rw [hnil]
    · rw [hcons]
      exact hpower

/-- Behind its sign a numeral is passed over, whatever its size. -/
theorem skipNumber_append (h : Ends rest) : skipNumber (n.unsigned ++ rest) = .ok rest := by
  have hhead := n.head_behindWhole h
  rw [← n.skipAfterDigits_append h, unsigned, List.append_assoc, skipNumber.eq_def]
  rcases n.whole_cases with hzero | ⟨b, digits, hdigits, hne, hb, hrest⟩
  · rw [hzero, List.singleton_append]
    dsimp only
    rw [if_pos rfl]
    cases hs : n.behindWhole ++ rest with
    | nil => rfl
    | cons c s =>
      dsimp only
      rw [hhead c (by rw [hs]; rfl), if_neg Bool.false_ne_true]
  · rw [hdigits, List.cons_append]
    dsimp only
    rw [if_neg hne, if_pos hb, dropWhile_digits hrest hhead]

end Numeral

/-! ### Strings -/

theorem skipString_append {s : Octets} (h : IsString s) (rest : Octets) :
    skipString (s ++ rest) = .ok rest := by
  have hne : backslash ≠ quote := by decide
  induction h with
  | done =>
    rw [skipString.eq_def]
    rfl
  | @plain b s hb _ ih =>
    rw [List.cons_append, skipString.eq_def]
    dsimp only
    rw [if_neg hb.1, if_neg hb.2.1, if_neg hb.2.2, ih]
  | @short e s he _ ih =>
    have hunit : e ≠ 0x75 := by
      rintro rfl
      cases he
    rw [List.cons_append, List.cons_append, skipString.eq_def]
    dsimp only
    rw [if_neg hne, if_pos rfl]
    split
    · rename_i heq
      cases heq
    · rename_i heq
      exact absurd (List.cons.inj heq).1 hunit
    · rename_i heq
      exact absurd (List.cons.inj heq).1 hunit
    · rename_i heq
      obtain ⟨rfl, rfl⟩ := List.cons.inj heq
      rw [if_pos he, ih]
  | @unit a b c d s hunit _ ih =>
    rw [List.cons_append, skipString.eq_def]
    dsimp only
    rw [if_neg hne, if_pos rfl]
    show (if (hex a b c d).isSome = true then skipString (s ++ rest) else _) = _
    rw [if_pos hunit, ih]

/-! ### Values -/

/-- Values that are passed over in twice as many steps as they have octets, whatever stands around
them. -/
structure Skips (w : Octets) : Prop where
  starts : Starts w
  passes : ∀ {fuel : Nat} {blanks rest : Octets}, 2 * w.length ≤ fuel → Blanks blanks → Ends rest →
    skipValue fuel (blanks ++ (w ++ rest)) = .ok rest

theorem skipValue_cons {blanks : Octets} (hblanks : Blanks blanks) {b : UInt8}
    (hb : isBlank b = false) (fuel : Nat) (s : Octets) :
    skipValue (fuel + 1) (blanks ++ b :: s) = skipValue (fuel + 1) (b :: s) := by
  rw [skipValue, skipValue, skipBlanks_append_cons hblanks hb, skipBlanks_cons hb]

/-- Values are judged by their first octet. -/
theorem skips_of_cons {b : UInt8} {s : Octets} (hb : isBlank b = false ∧ b ≠ closeList)
    (h : ∀ {fuel : Nat} {rest : Octets}, 2 * s.length + 1 ≤ fuel → Ends rest →
      skipValue (fuel + 1) (b :: (s ++ rest)) = .ok rest) : Skips (b :: s) := by
  refine ⟨⟨b, s, rfl, hb⟩, fun {fuel blanks rest} hfuel hblanks hends => ?_⟩
  rw [List.length_cons] at hfuel
  obtain ⟨fuel, rfl⟩ := Nat.exists_eq_add_one_of_ne_zero (n := fuel) (by omega)
  rw [List.cons_append, skipValue_cons hblanks hb.1]
  exact h (by omega) hends

theorem skips_null : Skips (word "null") :=
  skips_of_cons (by decide) fun _ _ => expectWord_append (word "ull") _

theorem skips_bool (b : Bool) : Skips (word (if b then "true" else "false")) := by
  cases b with
  | true => exact skips_of_cons (by decide) fun _ _ => expectWord_append (word "rue") _
  | false => exact skips_of_cons (by decide) fun _ _ => expectWord_append (word "alse") _

theorem skipWord?_of_isDigit {b : UInt8} (h : isDigit b = true) (s : Octets) :
    skipWord? b s = none := by
  rw [skipWord?, if_neg (ne_of_digit h rfl), if_neg (ne_of_digit h rfl),
    if_neg (ne_of_digit h rfl)]

theorem skips_number (n : Numeral) : Skips n.text := by
  obtain ⟨b, s, hunsigned, hb⟩ := n.unsigned_cases
  have hpass {rest : Octets} (h : Ends rest) := n.skipNumber_append h
  rw [Numeral.text]
  split
  · exact skips_of_cons (by decide) fun _ hends => hpass hends
  · rw [hunsigned] at hpass ⊢
    obtain ⟨hblank, hminus, hclose⟩ := of_isDigit hb
    refine skips_of_cons ⟨hblank, hclose⟩ fun {fuel rest} _ hends => ?_
    rw [skipValue, skipBlanks_cons hblank]
    dsimp only
    rw [skipWord?_of_isDigit hb]
    dsimp only
    rw [if_neg hminus, if_pos hb]
    exact hpass hends

theorem skips_string {s : Octets} (h : IsString s) : Skips (quote :: s) := by
  refine skips_of_cons (by decide) fun {fuel rest} _ _ => ?_
  exact skipString_append h rest

/-! ### Lists and objects -/

/-- What is done behind an item: another one is passed over, or the end. -/
def afterItem (closing : UInt8) (next : Octets → Except Fault Octets) (s : Octets) :
    Except Fault Octets :=
  match skipBlanks s with
  | [] => .error .truncated
  | b :: r =>
    if b = comma then next r
    else if b = closing then .ok r
    else .error .malformed

section

variable {w tail blanks s rest : Octets} {fuel : Nat}

/-- A loop that passes over one item with each step passes over all of them. An item takes twice as
many steps as it has octets, and the comma before it makes up for the step of the loop. -/
theorem passes_tail {α : Type} {item : Octets → α → Prop} {closing : UInt8}
    {loop : Nat → Octets → Except Fault Octets}
    {x : α} {xs : List α} (hw : item w x) (h : Tail item closing tail xs)
    (hclosing : closing = closeList ∨ closing = closeObject)
    (hnext : ∀ {w x fuel blanks s}, item w x → 2 * w.length ≤ fuel → Blanks blanks → Ends s →
      loop (fuel + 1) (blanks ++ (w ++ s)) = afterItem closing (loop fuel) s)
    (hblanks : Blanks blanks) (hfuel : 2 * (w.length + tail.length) + 1 ≤ fuel) :
    loop fuel (blanks ++ (w ++ (tail ++ rest))) = .ok rest := by
  induction h generalizing w x fuel blanks with
  | @done inner hinner =>
    have hblank : isBlank closing = false ∧ closing ≠ comma := by
      rcases hclosing with rfl | rfl <;> decide
    obtain ⟨fuel, rfl⟩ := Nat.exists_eq_add_one_of_ne_zero (n := fuel) (by omega)
    rw [List.append_assoc, List.singleton_append, hnext hw (by omega) hblanks
      (ends_append_cons hinner (.inr hclosing) rest), afterItem,
      skipBlanks_append_cons hinner hblank.1]
    dsimp only
    rw [if_neg hblank.2, if_pos rfl]
  | @more before behind w' tail x xs hbefore hbehind hw' htail ih =>
    obtain ⟨fuel, rfl⟩ := Nat.exists_eq_add_one_of_ne_zero (n := fuel) (by omega)
    simp only [List.length_append, List.length_cons] at hfuel
    rw [List.append_assoc, List.cons_append, hnext hw (by omega) hblanks
      (ends_append_cons hbefore (.inl rfl) _), afterItem, skipBlanks_append_cons hbefore rfl,
      List.append_assoc, List.append_assoc]
    exact ih hw' hbehind (by omega)

/-- Behind an item that is passed over there is a comma or the end of the list. -/
theorem skipItems_next (hw : Skips w) (hfuel : 2 * w.length ≤ fuel) (hblanks : Blanks blanks)
    (hends : Ends s) :
    skipItems (fuel + 1) (blanks ++ (w ++ s)) = afterItem closeList (skipItems fuel) s := by
  rw [skipItems, hw.passes hfuel hblanks hends]
  rfl

theorem skips_list {xs : List Unit} (h : Enclosed (fun w _ => Skips w) openList closeList w xs) :
    Skips w := by
  cases h with
  | @empty inner hinner =>
    refine skips_of_cons (by decide) fun {fuel rest} _ _ => ?_
    rw [skipValue, skipBlanks_cons rfl, List.append_assoc, List.singleton_append]
    show (match skipBlanks (inner ++ closeList :: rest) with | [] => _ | c :: r => _) = _
    rw [skipBlanks_append_cons hinner rfl]
    rfl
  | @items inner w' tail x xs hinner hw' htail =>
    refine skips_of_cons (by decide) fun {fuel rest} hfuel _ => ?_
    obtain ⟨b, s, rfl, hblank, hclose⟩ := hw'.starts
    simp only [List.length_append] at hfuel
    have hfuel' : 2 * ((b :: s).length + tail.length) + 1 ≤ fuel := by omega
    have hitems : skipItems fuel (b :: s ++ (tail ++ rest)) = .ok rest :=
      passes_tail (x := x) hw' htail (.inl rfl) skipItems_next blanks_nil hfuel'
    rw [skipValue, skipBlanks_cons rfl, List.append_assoc, List.append_assoc, List.cons_append]
    show (match skipBlanks (inner ++ b :: (s ++ (tail ++ rest))) with | [] => _ | c :: r => _) = _
    rw [skipBlanks_append_cons hinner hblank]
    dsimp only
    rw [if_neg hclose]
    exact hitems

abbrev SkipsMember (w : Octets) (x : Unit × Octets) : Prop :=
  Member (fun s _ => IsString s) Skips w x

theorem skipMembers_next {x : Unit × Octets} (hw : SkipsMember w x) (hfuel : 2 * w.length ≤ fuel)
    (hblanks : Blanks blanks) (hends : Ends s) :
    skipMembers (fuel + 1) (blanks ++ (w ++ s)) = afterItem closeObject (skipMembers fuel) s := by
  cases hw with
  | @mk key before behind w k hkey hbefore hbehind hw =>
    simp only [List.length_cons, List.length_append] at hfuel
    rw [skipMembers, List.cons_append, skipBlanks_append_cons hblanks rfl]
    simp only [List.append_assoc, List.cons_append]
    rw [if_pos trivial, skipString_append hkey]
    show (match skipBlanks (before ++ colon :: (behind ++ (w ++ s))) with
      | [] => _ | c :: s => _) = _
    rw [skipBlanks_append_cons hbefore rfl]
    show ((skipValue fuel (behind ++ (w ++ s))) >>= _) = _
    rw [hw.passes (by omega) hbehind hends]
    rfl

theorem skips_object {xs : List (Unit × Octets)}
    (h : Enclosed SkipsMember openObject closeObject w xs) : Skips w := by
  cases h with
  | @empty inner hinner =>
    refine skips_of_cons (by decide) fun {fuel rest} _ _ => ?_
    rw [skipValue, skipBlanks_cons rfl, List.append_assoc, List.singleton_append]
    show (match skipBlanks (inner ++ closeObject :: rest) with | [] => _ | c :: r => _) = _
    rw [skipBlanks_append_cons hinner rfl]
    rfl
  | @items inner w' tail x xs hinner hw' htail =>
    refine skips_of_cons (by decide) fun {fuel rest} hfuel _ => ?_
    simp only [List.length_append] at hfuel
    have hfuel' : 2 * (w'.length + tail.length) + 1 ≤ fuel := by omega
    have hmembers : skipMembers fuel (w' ++ (tail ++ rest)) = .ok rest :=
      passes_tail hw' htail (.inr rfl) skipMembers_next blanks_nil hfuel'
    rw [skipValue, skipBlanks_cons rfl, List.append_assoc, List.append_assoc]
    cases hw' with
    | mk =>
      show (match skipBlanks (inner ++ quote :: (_ ++ (tail ++ rest))) with
        | [] => _ | c :: r => _) = _
      rw [skipBlanks_append_cons hinner rfl]
      exact hmembers

end

/-- Every well-formed value is passed over. -/
theorem IsValue.skips {w : Octets} (h : IsValue w) : Skips w :=
  h.induction skips_null skips_bool skips_number skips_string skips_list skips_object

end CowArrays.Json
