import CowArrays.Text.Blank
import Mathlib.Data.List.TakeWhile

/-!
Trimming finds the one part of a text that neither starts nor ends with white space and has nothing
but white space around it.
-/

namespace CowArrays.Text

/-- White space, a body without white space at its ends, and white space. -/
structure Padded (body cs : List Char) : Prop where
  around : ∃ left right, cs = left ++ (body ++ right) ∧ (∀ c ∈ left, isBlank c = true) ∧
    ∀ c ∈ right, isBlank c = true
  head : ∀ c ∈ body.head?, isBlank c = false
  last : ∀ c ∈ body.getLast?, isBlank c = false

theorem dropWhile_of_head {α : Type} {p : α → Bool} {xs : List α}
    (h : ∀ x ∈ xs.head?, p x = false) : xs.dropWhile p = xs := by
  cases xs with
  | nil => rfl
  | cons x xs =>
    have hx : p x = false := h x rfl
    rw [List.dropWhile_cons, hx]
    rfl

theorem trim_padded (cs : List Char) : Padded (trim cs) cs := by
  have hleft : cs = cs.takeWhile isBlank ++ cs.dropWhile isBlank :=
    List.takeWhile_append_dropWhile.symm
  have hright : cs.dropWhile isBlank =
      trim cs ++ ((cs.dropWhile isBlank).reverse.takeWhile isBlank).reverse := by
    rw [trim, trimBy, ← List.reverse_append, List.takeWhile_append_dropWhile, List.reverse_reverse]
  constructor
  case around =>
    refine ⟨cs.takeWhile isBlank, ((cs.dropWhile isBlank).reverse.takeWhile isBlank).reverse, ?_,
      fun c hc => ?_, fun c hc => ?_⟩
    · rw [← hright]
      exact hleft
    · exact List.all_eq_true.1 List.all_takeWhile c hc
    · exact List.all_eq_true.1 List.all_takeWhile c (List.mem_reverse.1 hc)
  case head =>
    -- a body that is not empty starts where the white space before it ends
    intro c hc
    have hhead : (cs.dropWhile isBlank).head? = some c := by
      rw [hright, List.head?_append, hc]
      rfl
    have hnot := List.head?_dropWhile_not isBlank cs
    rw [hhead] at hnot
    simpa using hnot
  case last =>
    intro c hc
    have hhead : ((cs.dropWhile isBlank).reverse.dropWhile isBlank).head? = some c := by
      rw [trim, trimBy, List.getLast?_reverse] at hc
      exact hc
    have hnot := List.head?_dropWhile_not isBlank (cs.dropWhile isBlank).reverse
    rw [hhead] at hnot
    simpa using hnot

theorem Padded.trim_eq {body cs : List Char} (h : Padded body cs) : trim cs = body := by
  obtain ⟨left, right, hcs, hleft, hright⟩ := h.around
  have hreverse : ∀ c ∈ right.reverse, isBlank c = true :=
    fun c hc => hright c (List.mem_reverse.1 hc)
  cases body with
  | nil =>
    have hall : ∀ c ∈ cs, isBlank c = true := by
      intro c hc
      rw [hcs, List.nil_append, List.mem_append] at hc
      exact hc.elim (hleft c) (hright c)
    rw [trim, trimBy, List.dropWhile_eq_nil_iff.2 hall]
    rfl
  | cons b body =>
    have hhead : ∀ c ∈ (b :: body ++ right).head?, isBlank c = false := h.head
    have hlast : ∀ c ∈ (b :: body).reverse.head?, isBlank c = false := by
      intro c hc
      rw [List.head?_reverse] at hc
      exact h.last c hc
    rw [trim, trimBy, hcs, List.dropWhile_append_of_pos hleft, dropWhile_of_head hhead,
      List.reverse_append, List.dropWhile_append_of_pos hreverse, dropWhile_of_head hlast,
      List.reverse_reverse]

theorem trim_eq_iff {body cs : List Char} : trim cs = body ↔ Padded body cs := by
  constructor
  · intro h
    rw [← h]
    exact trim_padded cs
  · exact Padded.trim_eq

theorem trim_blank_append {left : List Char} (h : ∀ c ∈ left, isBlank c = true) (cs : List Char) :
    trim (left ++ cs) = trim cs := by
  rw [trim, trimBy, List.dropWhile_append_of_pos h]
  rfl

theorem trim_append_of_blank {cs right : List Char} (h : ∀ c ∈ right, isBlank c = true) :
    trim (cs ++ right) = trim cs := by
  obtain ⟨left, right', hcs, hleft, hright'⟩ := (trim_padded cs).around
  have happend : cs ++ right = left ++ (trim cs ++ (right' ++ right)) := by
    rw [← List.append_assoc (trim cs), ← List.append_assoc left, ← hcs]
  refine trim_eq_iff.2 ⟨⟨left, right' ++ right, happend, hleft, ?_⟩, (trim_padded cs).head,
    (trim_padded cs).last⟩
  intro c hc
  exact (List.mem_append.1 hc).elim (hright' c) (h c)

end CowArrays.Text
