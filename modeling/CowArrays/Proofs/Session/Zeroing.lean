import CowArrays.Proofs.Session.Shapes
import CowArrays.Proofs.Sharing.Atomicity

/-!
Rows and columns set to zeros, with or without a one on the diagonal. Such an edit checks its index
against the bounds that it needs, and then changes the entries of its row or column and no others.
-/

namespace CowArrays

variable {p : Precision}

def Grid.bound (g : Grid p) : Axis → Nat
  | .row => g.rows
  | .column => g.cols

/-- The edits that put zeros in the row or the column of an index, with the bounds that they check
it against, in their order, and the entry that they leave at a position. -/
inductive MatrixEdit.Zeroes (i : Nat) :
    MatrixEdit p → List Axis → (Nat → Nat → Scalar p → Scalar p) → Prop
  | clearRow : Zeroes i (.clearRow i) [.row] fun a _ x => if a = i then .zero else x
  | clearCol : Zeroes i (.clearCol i) [.column] fun _ b x => if b = i then .zero else x
  | unitRow : Zeroes i (.unitRow i) [.row, .column] fun a b x =>
      if a = i ∧ b = i then .unit else if a = i then .zero else x
  | unitCol : Zeroes i (.unitCol i) [.column, .row] fun a b x =>
      if a = i ∧ b = i then .unit else if b = i then .zero else x

namespace MatrixEdit.Zeroes

variable {g : Grid p} {i : Nat} {e : MatrixEdit p} {axes : List Axis}
  {new : Nat → Nat → Scalar p → Scalar p}

theorem check_eq (h : e.Zeroes i axes new) (r : Reading p) :
    e.check r g = axes.forM fun axis => checkIndex axis i (g.bound axis) := by
  cases h with
  | clearRow | clearCol => exact bind_pure_unit.symm
  | unitRow | unitCol => exact bind_congr fun _ => bind_pure_unit.symm

theorem check_eq_ok (h : e.Zeroes i axes new) (r : Reading p) :
    e.check r g = .ok () ↔ ∀ axis ∈ axes, i < g.bound axis := by
  simp only [h.check_eq, Attempt.forM_eq_ok, checkIndex_eq_ok]

theorem isNeeded_eq (h : e.Zeroes i axes new) (r : Reading p) : e.isNeeded r = .ok true := by
  cases h <;> rfl

/-- Inside its bounds such an edit leaves the shape and what it makes of every entry. -/
theorem exists_run (h : e.Zeroes i axes new) (hi : ∀ axis ∈ axes, i < g.bound axis)
    (r : Reading p) : ∃ g', e.run r g = .ok g' ∧ g'.shape = g.shape ∧
      ∀ a b, g'.read? a b = (g.read? a b).map (new a b) := by
  cases h with
  | clearRow => exact Grid.exists_clearRow (hi .row (by simp))
  | clearCol => exact Grid.exists_clearCol (hi .column (by simp))
  | unitRow => exact Grid.exists_unitRow (hi .row (by simp)) (hi .column (by simp))
  | unitCol => exact Grid.exists_unitCol (hi .column (by simp)) (hi .row (by simp))

end MatrixEdit.Zeroes

namespace Store

/-- What a step makes of the matrix of a name, when it shall check an index against some bounds and
then change each entry in a given way. -/
structure Resets (s : Store p) (t : Step p) (of : Name) (g : Grid p) (i : Nat) (axes : List Axis)
    (new : Nat → Nat → Scalar p → Scalar p) : Prop where
  /-- The index is inside all bounds exactly where the step succeeds. -/
  succeeds : (∃ answer, (s.step t).1 = .ok answer) ↔ ∀ axis ∈ axes, i < g.bound axis
  /-- Each entry is changed in this way then, and the shape stays. -/
  entries : (∀ axis ∈ axes, i < g.bound axis) → ∃ g', (s.step t).2.reading.matrix of = .ok g' ∧
    g'.shape = g.shape ∧ ∀ a b, g'.read? a b = (g.read? a b).map (new a b)
  /-- Otherwise the first bound that the index exceeds is named, and nothing changes. -/
  refused : ∀ before axis after, axes = before ++ axis :: after →
    (∀ inside ∈ before, i < g.bound inside) → g.bound axis ≤ i →
      s.step t = (.error (.refused (.indexOutOfRange axis i (g.bound axis))), s)
  /-- No other variable changes, whichever of them are on the same cell. -/
  others : ∀ n, n ≠ of → (s.step t).2.reading.value? n = s.reading.value? n

variable {s : Store p} {of : Name} {g : Grid p} {i : Nat} {e : MatrixEdit p} {axes : List Axis}
  {new : Nat → Nat → Scalar p → Scalar p}

/-- Behind the check such an edit always has something to do, and nothing that can fail. -/
theorem Sound.step_zeroes_run (hs : s.Sound) (hg : s.reading.matrix of = .ok g)
    (he : e.Zeroes i axes new) (hi : ∀ axis ∈ axes, i < g.bound axis) :
    ∃ g' t, s.step (.act (.matrix (.edit of e))) = (.ok .done, t) ∧
      t.reading.matrix of = .ok g' ∧ g'.shape = g.shape ∧
        ∀ a b, g'.read? a b = (g.read? a b).map (new a b) := by
  obtain ⟨g', hrun, hchanged⟩ := he.exists_run hi (s.reading.own of)
  obtain ⟨t, hstep, hmatrix⟩ := hs.step_edit_run hg ((he.check_eq_ok _).2 hi) (he.isNeeded_eq _) hrun
  exact ⟨g', t, hstep, hmatrix, hchanged⟩

theorem Reachable.step_zeroes (h : s.Reachable) (hg : s.reading.matrix of = .ok g)
    (he : e.Zeroes i axes new) : s.Resets (.act (.matrix (.edit of e))) of g i axes new := by
  constructor
  case succeeds =>
    refine ⟨fun ⟨answer, hanswer⟩ => ?_, fun hi => ?_⟩
    · cases hcheck : e.check s.reading g with
      | ok => exact (he.check_eq_ok _).1 hcheck
      | error failure =>
        have hplan : s.plan (.act (.matrix (.edit of e))) = .error failure :=
          MatrixStep.plan_edit_eq_error hg hcheck
        rw [step_of_error hplan] at hanswer
        cases hanswer
    · obtain ⟨g', t, hstep, -⟩ := h.sound.step_zeroes_run hg he hi
      exact ⟨.done, by rw [hstep]⟩
  case entries =>
    intro hi
    obtain ⟨g', t, hstep, hchanged⟩ := h.sound.step_zeroes_run hg he hi
    exact ⟨g', by rw [hstep]; exact hchanged⟩
  case refused =>
    rintro before axis after rfl hbefore haxis
    have hcheck : e.check s.reading g =
        .error (.refused (.indexOutOfRange axis i (g.bound axis))) := by
      rw [he.check_eq]
      exact Attempt.forM_eq_error.2 ⟨before, axis, after, rfl,
        fun b hb => checkIndex_eq_ok.2 (hbefore b hb), checkIndex_eq_error haxis⟩
    exact step_of_error (MatrixStep.plan_edit_eq_error hg hcheck)
  case others =>
    intro n hn
    exact h.sound.value?_step fun hmem => hn (List.mem_singleton.1 hmem)

def wideGrid : Grid .double := ⟨2, 3, #[.unit, .unit, .nan true, .nan false, .unit, .unit], rfl⟩

def clonedWide : Store .double :=
  ((({} : Store .double).step (.act (.matrix (.create wideGrid "m")))).2.step
    (.act (.sharing (.clone .matrix "m" "n")))).2

/-- Index two is a column of the grid and no row. -/
theorem step_zeroes_clonedWide : clonedWide.Reachable ∧ clonedWide.strong 0 = 2 ∧
    (∃ g', (clonedWide.step (.act (.matrix (.edit "n" (.clearCol 2))))).2.reading.matrix "n" =
      .ok g' ∧ g'.read? 0 2 = some .zero ∧ g'.read? 1 0 = some (.nan false)) ∧
    clonedWide.step (.act (.matrix (.edit "n" (.unitCol 2)))) =
      (.error (.refused (.indexOutOfRange .row 2 2)), clonedWide) := by
  have hreachable : clonedWide.Reachable := .step _ (.step _ .start)
  have hmatrix : clonedWide.reading.matrix "n" = .ok wideGrid := rfl
  refine ⟨hreachable, by decide, ?_, ?_⟩
  · have hcleared := hreachable.step_zeroes hmatrix (.clearCol (i := 2))
    obtain ⟨g', hg', -, hread⟩ := hcleared.entries (by decide)
    exact ⟨g', hg', by rw [hread]; rfl, by rw [hread]; rfl⟩
  · have hrefused := hreachable.step_zeroes hmatrix (.unitCol (i := 2))
    exact hrefused.refused [.column] .row [] rfl (by decide) (by decide)

end Store
end CowArrays
