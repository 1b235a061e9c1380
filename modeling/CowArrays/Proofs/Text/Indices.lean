import CowArrays.Proofs.Text.Numerals

/-!
The grammar of indices: digits, perhaps behind a plus sign, of a number below the limit. Reading
accepts exactly these texts, and what is wrong with another one is decided from the left.
-/

namespace CowArrays

open Decimal (ofDigits ofDigitsFrom digit)

inductive SpellsIndex : List Char → Nat → Prop
  | digits {cs : List Char} (nonempty : cs ≠ []) (all : ∀ c ∈ cs, c.isDigit = true)
      (below : ofDigits cs < indexLimit) : SpellsIndex cs (ofDigits cs)
  | plus {cs : List Char} (nonempty : cs ≠ []) (all : ∀ c ∈ cs, c.isDigit = true)
      (below : ofDigits cs < indexLimit) : SpellsIndex ('+' :: cs) (ofDigits cs)

/-- What is wrong with a text behind digits that spell a value: the first character that is no
digit, or the digit with which the number reaches the limit. -/
inductive Misspells (value : Nat) : List Char → IndexFault → Prop
  | badDigit {digits rest : List Char} {c : Char} (all : ∀ d ∈ digits, d.isDigit = true)
      (below : ofDigitsFrom value digits < indexLimit) (bad : c.isDigit = false) :
      Misspells value (digits ++ c :: rest) .badDigit
  | tooLarge {digits rest : List Char} {c : Char} (all : ∀ d ∈ digits, d.isDigit = true)
      (below : ofDigitsFrom value digits < indexLimit) (good : c.isDigit = true)
      (reaches : indexLimit ≤ ofDigitsFrom value (digits ++ [c])) :
      Misspells value (digits ++ c :: rest) .tooLarge

/-- Texts that are no indices, with what is wrong. -/
inductive MisspellsIndex : List Char → IndexFault → Prop
  | empty : MisspellsIndex [] .empty
  | sign : MisspellsIndex ['+'] .badDigit
  | plus {cs : List Char} {fault : IndexFault} (h : Misspells 0 cs fault) :
      MisspellsIndex ('+' :: cs) fault
  | bare {cs : List Char} {fault : IndexFault} (unsigned : cs.head? ≠ some '+')
      (h : Misspells 0 cs fault) : MisspellsIndex cs fault

/-! ### Digits from the left -/

section Digits

variable {value n : Nat} {c : Char} {cs : List Char} {fault : IndexFault}

theorem indexLimit_pos : 0 < indexLimit := by decide

theorem readDigits_cons_of_isDigit (hc : c.isDigit = true) : readDigits value (c :: cs) =
    if 10 * value + digit c < indexLimit then readDigits (10 * value + digit c) cs
    else .error .tooLarge := by
  rw [readDigits, if_pos hc]

theorem readDigits_cons_of_not_isDigit (hc : c.isDigit = false) :
    readDigits value (c :: cs) = .error .badDigit := by
  rw [readDigits, if_neg (by simp [hc])]

/-- Digits below the limit are taken, and what follows them decides. -/
theorem readDigits_append {digits : List Char} (hall : ∀ c ∈ digits, c.isDigit = true)
    (hbelow : ofDigitsFrom value digits < indexLimit) (rest : List Char) :
    readDigits value (digits ++ rest) = readDigits (ofDigitsFrom value digits) rest := by
  induction digits generalizing value with
  | nil => rfl
  | cons c digits ih =>
    obtain ⟨hc, hrest⟩ := List.forall_mem_cons.1 hall
    have hle := Decimal.le_ofDigitsFrom (10 * value + digit c) digits
    have hnext : 10 * value + digit c < indexLimit := Nat.lt_of_le_of_lt hle hbelow
    rw [List.cons_append, readDigits_cons_of_isDigit hc, if_pos hnext]
    exact ih hrest hbelow

theorem readDigits_eq_ok_iff (hvalue : value < indexLimit) : readDigits value cs = .ok n ↔
    (∀ c ∈ cs, c.isDigit = true) ∧ ofDigitsFrom value cs < indexLimit ∧
      n = ofDigitsFrom value cs := by
  constructor
  · intro h
    induction cs generalizing value with
    | nil =>
      obtain rfl := Except.ok.inj h
      exact ⟨nofun, hvalue, rfl⟩
    | cons c cs ih =>
      cases hc : c.isDigit with
      | false =>
        rw [readDigits_cons_of_not_isDigit hc] at h
        cases h
      | true =>
        rw [readDigits_cons_of_isDigit hc] at h
        split at h
        · have ⟨hall, hbelow, hn⟩ := ih ‹_› h
          exact ⟨List.forall_mem_cons.2 ⟨hc, hall⟩, hbelow, hn⟩
        · cases h
  · rintro ⟨hall, hbelow, rfl⟩
    exact readDigits_eq_ok hall hbelow

theorem Misspells.cons (hc : c.isDigit = true) (h : Misspells (10 * value + digit c) cs fault) :
    Misspells value (c :: cs) fault := by
  cases h with
  | @badDigit digits rest d all below bad =>
    exact @Misspells.badDigit value (c :: digits) rest d (List.forall_mem_cons.2 ⟨hc, all⟩) below
      bad
  | @tooLarge digits rest d all below good reaches =>
    exact @Misspells.tooLarge value (c :: digits) rest d (List.forall_mem_cons.2 ⟨hc, all⟩) below
      good reaches

theorem readDigits_eq_error_iff (hvalue : value < indexLimit) :
    readDigits value cs = .error fault ↔ Misspells value cs fault := by
  constructor
  · intro h
    induction cs generalizing value with
    | nil => cases h
    | cons c cs ih =>
      cases hc : c.isDigit with
      | false =>
        rw [readDigits_cons_of_not_isDigit hc] at h
        obtain rfl := Except.error.inj h
        exact @Misspells.badDigit value [] cs c nofun hvalue hc
      | true =>
        rw [readDigits_cons_of_isDigit hc] at h
        split at h
        · exact (ih ‹_› h).cons hc
        · rename_i hlarge
          obtain rfl := Except.error.inj h
          exact @Misspells.tooLarge value [] cs c nofun hvalue hc (Nat.not_lt.1 hlarge)
  · rintro (⟨all, below, bad⟩ | ⟨all, below, good, reaches⟩)
    · rw [readDigits_append all below, readDigits_cons_of_not_isDigit bad]
    · rename_i digits rest d
      have hstep : ofDigitsFrom value (digits ++ [d]) = 10 * ofDigitsFrom value digits + digit d :=
        List.foldl_append
      rw [hstep] at reaches
      rw [readDigits_append all below, readDigits_cons_of_isDigit good,
        if_neg (Nat.not_lt.2 reaches)]

end Digits

/-! ### Whole indices -/

section Indices

variable {n : Nat} {cs : List Char} {fault : IndexFault}

theorem readIndex_plus (h : cs ≠ []) : readIndex ('+' :: cs) = readDigits 0 cs := by
  cases cs with
  | nil => exact absurd rfl h
  | cons c cs => rfl

theorem readIndex_bare (h : cs ≠ []) (unsigned : cs.head? ≠ some '+') :
    readIndex cs = readDigits 0 cs := by
  cases cs with
  | nil => exact absurd rfl h
  | cons c cs =>
    have hc : c ≠ '+' := fun heq => unsigned (congrArg some heq)
    unfold readIndex
    split <;> simp_all

/-- An index is behind a plus sign or it is bare, unless there are no digits to read. -/
theorem index_cases (cs : List Char) : cs = [] ∨ cs = ['+'] ∨
    (∃ ds, ds ≠ [] ∧ cs = '+' :: ds ∧ readIndex cs = readDigits 0 ds) ∨
      (cs ≠ [] ∧ cs.head? ≠ some '+' ∧ readIndex cs = readDigits 0 cs) := by
  cases cs with
  | nil => exact .inl rfl
  | cons c ds =>
    by_cases hc : c = '+'
    · subst hc
      by_cases hds : ds = []
      · exact .inr (.inl (by rw [hds]))
      · exact .inr (.inr (.inl ⟨ds, hds, rfl, readIndex_plus hds⟩))
    · have unsigned : (c :: ds).head? ≠ some '+' := fun heq => hc (Option.some.inj heq)
      exact .inr (.inr (.inr ⟨List.cons_ne_nil c ds, unsigned,
        readIndex_bare (List.cons_ne_nil c ds) unsigned⟩))

theorem readIndex_eq_ok_iff : readIndex cs = .ok n ↔ SpellsIndex cs n := by
  constructor
  · intro h
    rcases index_cases cs with rfl | rfl | ⟨ds, hds, rfl, hread⟩ | ⟨hcs, -, hread⟩
    · cases h
    · cases h
    · rw [hread] at h
      have ⟨hall, hbelow, hn⟩ := (readDigits_eq_ok_iff indexLimit_pos).1 h
      rw [hn]
      exact .plus hds hall hbelow
    · rw [hread] at h
      have ⟨hall, hbelow, hn⟩ := (readDigits_eq_ok_iff indexLimit_pos).1 h
      rw [hn]
      exact .digits hcs hall hbelow
  · rintro (⟨hsome, hall, hbelow⟩ | ⟨hsome, hall, hbelow⟩)
    · have unsigned : cs.head? ≠ some '+' := by
        intro hhead
        have hdigit := hall '+' (List.mem_of_mem_head? hhead)
        cases hdigit
      rw [readIndex_bare hsome unsigned]
      exact readDigits_eq_ok hall hbelow
    · rw [readIndex_plus hsome]
      exact readDigits_eq_ok hall hbelow

theorem Misspells.ne_nil {value : Nat} (h : Misspells value cs fault) : cs ≠ [] := by
  cases h <;> simp

theorem readIndex_eq_error_iff : readIndex cs = .error fault ↔ MisspellsIndex cs fault := by
  constructor
  · intro h
    rcases index_cases cs with rfl | rfl | ⟨ds, -, rfl, hread⟩ | ⟨-, unsigned, hread⟩
    · obtain rfl := Except.error.inj h
      exact .empty
    · obtain rfl := Except.error.inj h
      exact .sign
    · rw [hread] at h
      exact .plus ((readDigits_eq_error_iff indexLimit_pos).1 h)
    · rw [hread] at h
      exact .bare unsigned ((readDigits_eq_error_iff indexLimit_pos).1 h)
  · rintro (_ | _ | h | ⟨unsigned, h⟩)
    · rfl
    · rfl
    · rw [readIndex_plus h.ne_nil]
      exact (readDigits_eq_error_iff indexLimit_pos).2 h
    · rw [readIndex_bare h.ne_nil unsigned]
      exact (readDigits_eq_error_iff indexLimit_pos).2 h

theorem SpellsIndex.lt (h : SpellsIndex cs n) : n < indexLimit := by
  cases h with
  | digits _ _ below => exact below
  | plus _ _ below => exact below

end Indices
end CowArrays
