import CowArrays.Proofs.Sharing.Counts

/-!
A cell counts as unique exactly when one variable is on it, and a container that is to be changed is
alone on its cell by then, while every other variable stays where it was.
-/

namespace CowArrays.Store

variable {p : Precision} {s : Store p} {kind : Kind}

def On (s : Store p) (c : CellId) (name : Name) : Prop := (s.find? name).bind Binding.cell? = some c

theorem on_iff {c : CellId} {name : Name} :
    s.On c name ↔ ∃ b, s.find? name = some b ∧ b.cell? = some c :=
  Option.bind_eq_some_iff

theorem on_of_find? {c : CellId} {name : Name} {b : Binding p} (h : s.find? name = some b)
    (hb : b.cell? = some c) : s.On c name :=
  on_iff.2 ⟨b, h, hb⟩

theorem Balanced.lt_of_on {transit : List (Binding p)} (h : s.Balanced transit) {c : CellId}
    {name : Name} (hc : s.On c name) : c < s.cells.size := by
  obtain ⟨b, hb, hbc⟩ := on_iff.1 hc
  exact h.made hb c hbc

/-- Nobody owns or observes a cell that no variable is on. -/
theorem live_eq_zero_iff_off (h : s.Distinct) {c : CellId} :
    s.live (owns c) = 0 ∧ s.live (observes c) = 0 ↔ ∀ n, ¬ s.On c n := by
  rw [live_eq_zero_iff h, live_eq_zero_iff h]
  constructor
  · rintro ⟨ho, hw⟩ n hn
    obtain ⟨b, hb, hbc⟩ := on_iff.1 hn
    rcases cell?_eq_some_iff.1 hbc with hq | hq
    · exact Bool.false_ne_true ((ho n b hb).symm.trans hq)
    · exact Bool.false_ne_true ((hw n b hb).symm.trans hq)
  · intro hoff
    have hcell (n : Name) (b : Binding p) (hb : s.find? n = some b) : b.cell? ≠ some c :=
      fun hbc => hoff n (on_of_find? hb hbc)
    refine ⟨fun n b hb => ?_, fun n b hb => ?_⟩
    · exact eq_false_of_ne_true fun hq => hcell n b hb (cell?_eq_some_iff.2 (.inl hq))
    · exact eq_false_of_ne_true fun hq => hcell n b hb (cell?_eq_some_iff.2 (.inr hq))

theorem on_unbind {c : CellId} {name n : Name} :
    (s.unbind name).On c n ↔ n ≠ name ∧ s.On c n := by
  unfold On
  rw [find?_unbind]
  by_cases hn : n = name
  · simp [hn]
  · simp [hn]

/-- The counts of a container's cell say that it is unique exactly when no other variable is on
it. -/
theorem Accounted.isUnique_iff (h : s.Accounted) {name : Name} {c : CellId}
    (hc : s.find? name = some (.container kind c)) :
    s.isUnique c = true ↔ ∀ n, s.On c n → n = name := by
  -- the container is one owner of its cell; the others are what is left without it
  have howns : s.live (owns c) = (s.unbind name).live (owns c) + 1 := by
    rw [live_unbind h.distinct _ name, hc]
    simp [owns, Binding.owned?]
  have hobserves : s.live (observes c) = (s.unbind name).live (observes c) := by
    rw [live_unbind h.distinct _ name, hc]
    simp [observes, Binding.observed?]
  have hsplit : s.isUnique c = true ↔
      (s.unbind name).live (owns c) = 0 ∧ (s.unbind name).live (observes c) = 0 := by
    have hs := h.strong_eq c
    have hw := h.weak_eq c
    rw [isUnique, Bool.and_eq_true, beq_iff_eq, beq_iff_eq]
    omega
  rw [hsplit, live_eq_zero_iff_off (distinct_unbind h.distinct name)]
  constructor
  · intro hoff n hn
    by_contra hne
    exact hoff n (on_unbind.2 ⟨hne, hn⟩)
  · intro hall n hn
    obtain ⟨hne, hon⟩ := on_unbind.1 hn
    exact hne (hall n hon)

/-- Only the container itself moves when it gets a cell of its own. -/
theorem find?_makeUnique_of_ne {name n : Name} (hn : n ≠ name) :
    (s.makeUnique name).find? n = s.find? n := by
  rcases makeUnique_cases s name with heq | ⟨_, c, x, -, -, heq⟩
  · rw [heq]
  · rw [heq, find?_allocate, if_neg hn]

theorem find?_makeOwn_of_ne {name n : Name} (hn : n ≠ name) :
    (s.makeOwn name).find? n = s.find? n := by
  rw [makeOwn, find?_modifyContent, find?_makeUnique_of_ne hn]

/-- What becomes of a container that gets a cell of its own: it stays where it is alone, and takes
its content to a fresh cell where it is not. -/
theorem Accounted.makeUnique_cases (h : s.Accounted) {name : Name} {c : CellId}
    (hc : s.find? name = some (.container kind c)) :
    (s.isUnique c = true ∧ s.makeUnique name = s) ∨
      ∃ x, s.cells[c]? = some x ∧ s.makeUnique name = s.allocate name (.container kind) x.content := by
  have hlt : c < s.cells.size := h.lt_of_on (on_of_find? hc rfl)
  cases hu : s.isUnique c with
  | true => exact .inl ⟨rfl, by simp [makeUnique, hc, hu]⟩
  | false =>
    have hx := Array.getElem?_eq_getElem hlt
    exact .inr ⟨_, hx, by simp [makeUnique, hc, hu, hx]⟩

theorem Accounted.isUnique_allocate (h : s.Accounted) (name : Name) (x : Content p) :
    (s.allocate name (.container kind) x).isUnique s.cells.size = true := by
  have hd : (s.allocate name (.container kind) x).find? name = some (.container kind s.cells.size) := by
    rw [find?_allocate, if_pos rfl]
  have hacc : (s.allocate name (.container kind) x).Accounted := h.allocate name rfl x
  refine (hacc.isUnique_iff hd).2 fun n hn => ?_
  by_contra hne
  obtain ⟨b, hb, hbc⟩ := on_iff.1 hn
  rw [find?_allocate, if_neg hne] at hb
  exact Nat.lt_irrefl _ (h.made hb _ hbc)

theorem Accounted.isUnique_makeUnique (h : s.Accounted) {name : Name} {c : CellId}
    (hc : s.find? name = some (.container kind c)) :
    ∃ d, (s.makeUnique name).find? name = some (.container kind d) ∧
      (s.makeUnique name).isUnique d = true := by
  rcases h.makeUnique_cases hc with ⟨hu, heq⟩ | ⟨x, -, heq⟩
  · rw [heq]
    exact ⟨c, hc, hu⟩
  · rw [heq]
    exact ⟨s.cells.size, by rw [find?_allocate, if_pos rfl], h.isUnique_allocate name x.content⟩

@[simp] theorem isUnique_modifyContent (name : Name) (f : Content p → Content p) (c : CellId) :
    (s.modifyContent name f).isUnique c = s.isUnique c := by
  have hstrong : (s.modifyContent name f).strong c = s.strong c := tally_modifyContent name f .owner c
  have hweak : (s.modifyContent name f).weak c = s.weak c := tally_modifyContent name f .observer c
  rw [isUnique, hstrong, hweak, isUnique]

theorem Accounted.isUnique_makeOwn (h : s.Accounted) {name : Name} {c : CellId}
    (hc : s.find? name = some (.container kind c)) :
    ∃ d, (s.makeOwn name).find? name = some (.container kind d) ∧
      (s.makeOwn name).isUnique d = true := by
  obtain ⟨d, hd, hu⟩ := h.isUnique_makeUnique hc
  exact ⟨d, by simpa [makeOwn] using hd, by simpa [makeOwn] using hu⟩

theorem makeOwn_of_not_container {name : Name}
    (h : ∀ kind c, s.find? name ≠ some (.container kind c)) :
    s.makeOwn name = s := by
  have hu : s.makeUnique name = s := by
    rcases makeUnique_cases s name with heq | ⟨kind, c, _, hc, -, -⟩
    · exact heq
    · exact absurd hc (h kind c)
  rw [makeOwn, hu, modifyContent_of_not_container h]

end CowArrays.Store
