import CowArrays.Proofs.Json.Tokens

/-!
Readers at work on lists: where the items of a list are texts that a reader takes for values, the list
is read as the list of these values.
-/

namespace CowArrays.Json

variable {α : Type} {value item : Octets → Reads α}

/-- Octets that are read as a value, behind white space and before what no number goes on with. -/
structure Spells (value : Octets → Reads α) (w : Octets) (x : α) : Prop where
  starts : Starts w
  reads : ∀ {blanks rest : Octets}, Blanks blanks → Ends rest →
    value (blanks ++ (w ++ rest)) = .ok (x, rest)

/-! ### Reading -/

section Reading

variable {blanks : Octets} (hblanks : Blanks blanks)

include hblanks

theorem nextItem_close (first : Bool) (s : Octets) :
    nextItem first (blanks ++ closeList :: s) = .ok none := by
  rw [nextItem, skipBlanks_append_cons hblanks (by decide)]
  rfl

theorem endList_close (s : Octets) : endList (blanks ++ closeList :: s) = .ok s := by
  rw [endList, skipBlanks_append_cons hblanks (by decide)]
  rfl

theorem nextItem_first {w : Octets} (hw : Starts w) (s : Octets) :
    nextItem true (blanks ++ (w ++ s)) = .ok (some (w ++ s)) := by
  obtain ⟨b, w, rfl, hblank, hclose⟩ := hw
  rw [nextItem, List.cons_append, skipBlanks_append_cons hblanks hblank]
  dsimp only
  rw [if_neg hclose, if_pos rfl]

theorem nextItem_comma {behind : Octets} (hbehind : Blanks behind) {w : Octets} (hw : Starts w)
    (s : Octets) : nextItem false (blanks ++ comma :: (behind ++ (w ++ s))) =
      .ok (some (w ++ s)) := by
  have hcomma : comma ≠ closeList := by decide
  obtain ⟨b, w, rfl, hblank, hclose⟩ := hw
  rw [nextItem, skipBlanks_append_cons hblanks (by decide)]
  dsimp only
  rw [if_neg hcomma, if_neg Bool.false_ne_true, if_pos rfl, List.cons_append,
    skipBlanks_append_cons hbehind hblank]
  dsimp only
  rw [if_neg hclose]

theorem items_close (fuel : Nat) (first : Bool) (s : Octets) :
    items item (fuel + 1) first (blanks ++ closeList :: s) = .ok ([], s) := by
  rw [items, nextItem_close hblanks]
  show (endList _ >>= fun s => pure ([], s)) = _
  rw [endList_close hblanks]
  rfl

end Reading

/-- An item that comes next is read, and the others behind it. -/
theorem items_next {fuel : Nat} {first : Bool} {s w tail rest : Octets} {x : α} {xs : List α}
    (hnext : nextItem first s = .ok (some (w ++ (tail ++ rest)))) (h : Spells item w x)
    (hends : Ends (tail ++ rest)) (htail : items item fuel false (tail ++ rest) = .ok (xs, rest)) :
    items item (fuel + 1) first s = .ok (x :: xs, rest) := by
  have hitem : item (w ++ (tail ++ rest)) = .ok (x, tail ++ rest) := by
    have hread := h.reads blanks_nil hends
    rwa [List.nil_append] at hread
  rw [items, hnext]
  show Except.bind (item (w ++ (tail ++ rest))) _ = _
  rw [hitem]
  show Except.bind (items item fuel false (tail ++ rest)) _ = _
  rw [htail]
  rfl

/-- Every item passes over an octet at least, so as many steps as octets are enough. -/
theorem items_tail {w : Octets} {xs : List α} (h : Tail (Spells item) closeList w xs) (rest : Octets)
    {fuel : Nat} (hfuel : w.length ≤ fuel) :
    items item fuel false (w ++ rest) = .ok (xs, rest) := by
  induction h generalizing fuel with
  | @done blanks hblanks =>
    rw [List.length_append, List.length_singleton] at hfuel
    obtain ⟨fuel, rfl⟩ := Nat.exists_eq_add_one_of_ne_zero (n := fuel) (by omega)
    rw [List.append_assoc]
    exact items_close hblanks fuel false rest
  | @more before behind w tail x xs hbefore hbehind h htail ih =>
    simp only [List.length_append, List.length_cons] at hfuel
    obtain ⟨fuel, rfl⟩ := Nat.exists_eq_add_one_of_ne_zero (n := fuel) (by omega)
    have hnext := nextItem_comma hbefore hbehind h.starts (tail ++ rest)
    rw [List.append_assoc, List.cons_append, List.append_assoc, List.append_assoc]
    exact items_next hnext h (htail.ends (.inl rfl) rest) (ih (by omega))

theorem spells_list {w : Octets} {xs : List α}
    (h : Enclosed (Spells item) openList closeList w xs) : Spells (list item) w xs := by
  have hopen : isBlank openList = false ∧ openList ≠ closeList := by decide
  cases h with
  | @empty inner hinner =>
    refine ⟨⟨openList, _, rfl, hopen⟩, fun {blanks rest} hblanks _ => ?_⟩
    rw [list, List.cons_append, skipBlanks_append_cons hblanks hopen.1]
    dsimp only
    rw [if_pos rfl, List.append_assoc]
    exact items_close hinner _ true rest
  | @items inner w tail x xs hinner h htail =>
    refine ⟨⟨openList, _, rfl, hopen⟩, fun {blanks rest} hblanks _ => ?_⟩
    have hnext := nextItem_first hinner h.starts (tail ++ rest)
    rw [list, List.cons_append, skipBlanks_append_cons hblanks hopen.1]
    dsimp only
    rw [if_pos rfl, List.append_assoc, List.append_assoc]
    refine items_next hnext h (htail.ends (.inl rfl) rest) (items_tail htail rest ?_)
    simp only [List.length_append]
    omega

end CowArrays.Json
