import CowArrays.Proofs.Session.Zeroing

/-!
Rows and columns set one after the other. However they are ordered, the rows that were set hold what
they were set to and the others are as before; so all rows, or all columns, come to the whole grid.
-/

namespace CowArrays

variable {p : Precision}

def Axis.of : Axis → Nat → Nat → Nat
  | .row, a, _ => a
  | .column, _, b => b

namespace MatrixEdit

/-- The entry that is left at a position when the row or column of an index is set to that of a
grid. -/
def overwrite (axis : Axis) (target : Nat → Nat → Scalar p) (i a b : Nat) (x : Scalar p) : Scalar p :=
  if axis.of a b = i then target a b else x

/-- Whether edits, one for each index, set the rows or columns to those of one grid, when the index
is inside some bounds. -/
def Overwrites (edit : Nat → MatrixEdit p) (axes : List Axis) (axis : Axis)
    (target : Nat → Nat → Scalar p) : Prop :=
  ∀ i, (edit i).Zeroes i axes (overwrite axis target i)

theorem overwrites_clearRow :
    Overwrites (.clearRow : Nat → MatrixEdit p) [.row] .row fun _ _ => .zero :=
  fun _ => .clearRow

theorem overwrites_clearCol :
    Overwrites (.clearCol : Nat → MatrixEdit p) [.column] .column fun _ _ => .zero :=
  fun _ => .clearCol

theorem overwrites_unitRow : Overwrites (.unitRow : Nat → MatrixEdit p) [.row, .column] .row
    fun a b => if a = b then .unit else .zero := by
  intro i
  have hnew : overwrite (p := p) .row (fun a b => if a = b then .unit else .zero) i =
      fun a b x => if a = i ∧ b = i then .unit else if a = i then .zero else x := by
    funext a b x
    simp only [overwrite, Axis.of]
    grind
  rw [hnew]
  exact .unitRow

theorem overwrites_unitCol : Overwrites (.unitCol : Nat → MatrixEdit p) [.column, .row] .column
    fun a b => if a = b then .unit else .zero := by
  intro i
  have hnew : overwrite (p := p) .column (fun a b => if a = b then .unit else .zero) i =
      fun a b x => if a = i ∧ b = i then .unit else if b = i then .zero else x := by
    funext a b x
    simp only [overwrite, Axis.of]
    grind
  rw [hnew]
  exact .unitCol

end MatrixEdit

namespace Store

variable {s : Store p} {of : Name} {g : Grid p} {edit : Nat → MatrixEdit p} {axes : List Axis}
  {axis : Axis} {target : Nat → Nat → Scalar p}

def editEach (of : Name) (edit : Nat → MatrixEdit p) (order : List Nat) : List (Step p) :=
  order.map fun i => .act (.matrix (.edit of (edit i)))

/-- Whether steps all succeed, and leave a grid as the matrix of a name. -/
def Leaves (s : Store p) (steps : List (Step p)) (of : Name) (g : Grid p) : Prop :=
  (∀ r ∈ s.run steps, r.1 = .ok .done) ∧ (s.after steps).reading.matrix of = .ok g

/-- Behind such edits the rows or columns that were treated are those of the target, whatever order
they were treated in, and the others are as before. -/
theorem Sound.leaves_editEach (hs : s.Sound) (hg : s.reading.matrix of = .ok g)
    (he : MatrixEdit.Overwrites edit axes axis target) {order : List Nat}
    (hinside : ∀ i ∈ order, ∀ a ∈ axes, i < g.bound a) :
    ∃ g', s.Leaves (editEach of edit order) of g' ∧ g'.shape = g.shape ∧ ∀ a b,
      g'.read? a b = (g.read? a b).map fun x => if axis.of a b ∈ order then target a b else x := by
  induction order generalizing s g with
  | nil => exact ⟨g, ⟨nofun, hg⟩, rfl, fun a b => by simp⟩
  | cons i order ih =>
    obtain ⟨hi, hrest⟩ := List.forall_mem_cons.1 hinside
    obtain ⟨g₁, t, hstep, hmatrix, hshape₁, hread₁⟩ := hs.step_zeroes_run hg (he i) hi
    have ht := hs.step (.act (.matrix (.edit of (edit i))))
    rw [hstep] at ht
    obtain ⟨hrows, hcols⟩ := Grid.shape_eq_iff.1 hshape₁
    have hbound (a : Axis) : g₁.bound a = g.bound a := by
      cases a with
      | row => exact hrows
      | column => exact hcols
    obtain ⟨g', ⟨hdone, hafter⟩, hshape, hread⟩ := ih ht hmatrix (by simpa only [hbound] using hrest)
    refine ⟨g', ⟨?_, ?_⟩, hshape.trans hshape₁, fun a b => ?_⟩
    · show ∀ r ∈ s.step _ :: (s.step _).2.run (editEach of edit order), r.1 = .ok .done
      rw [hstep]
      exact List.forall_mem_cons.2 ⟨rfl, hdone⟩
    · show ((s.step _).2.after (editEach of edit order)).reading.matrix of = .ok g'
      rw [hstep]
      exact hafter
    · -- what was treated later stays, and what was not was treated now or is as before
      rw [hread, hread₁, Option.map_map]
      refine congrArg (Option.map · (g.read? a b)) (funext fun x => ?_)
      by_cases hmem : axis.of a b ∈ order
      · simp [hmem]
      · simp [hmem, MatrixEdit.overwrite]

/-- All rows, or all columns, in any order and however often each, come to the whole target. -/
theorem Sound.leaves_whole (hs : s.Sound) (hg : s.reading.matrix of = .ok g)
    (he : MatrixEdit.Overwrites edit axes axis target) {order : List Nat}
    (hall : ∀ i, i ∈ order ↔ i < g.bound axis) (hbounds : ∀ a ∈ axes, g.bound axis ≤ g.bound a)
    {h : Grid p} (hshape : h.shape = g.shape)
    (hread : ∀ a b, a < g.rows ∧ b < g.cols → h.read? a b = some (target a b)) :
    s.Leaves (editEach of edit order) of h := by
  obtain ⟨g', hleaves, hshape', hread'⟩ := hs.leaves_editEach hg he fun i hi a ha =>
    Nat.lt_of_lt_of_le ((hall i).1 hi) (hbounds a ha)
  have hsame : g' = h := by
    refine Grid.eq_of_read? (hshape'.trans hshape.symm) fun a b hab => ?_
    obtain ⟨hrows, hcols⟩ := Grid.shape_eq_iff.1 hshape'
    rw [hrows, hcols] at hab
    have hmem : axis.of a b ∈ order := by
      rw [hall]
      cases axis with
      | row => exact hab.1
      | column => exact hab.2
    obtain ⟨x, hx⟩ := Grid.exists_read? hab
    rw [hread', hread a b hab, hx, Option.map_some, if_pos hmem]
  exact hsame ▸ hleaves

/-- What a matrix comes to when it is set by rows or by columns. -/
structure PiecewiseLaws (s : Store p) (of : Name) (g : Grid p) : Prop where
  /-- Clearing leaves nothing but zeros. -/
  clear : s.Leaves [.act (.matrix (.edit of .clear))] of (.filled g.rows g.cols .zero)
  /-- So does clearing all rows in any order. -/
  clearRows : ∀ order : List Nat, order.Perm (List.range g.rows) →
    s.Leaves (editEach of .clearRow order) of (.filled g.rows g.cols .zero)
  /-- So does clearing all columns. -/
  clearCols : ∀ order : List Nat, order.Perm (List.range g.cols) →
    s.Leaves (editEach of .clearCol order) of (.filled g.rows g.cols .zero)
  /-- In a square matrix unit rows and unit columns come to the identity. -/
  identity : g.rows = g.cols → ∃ one, Grid.identity g.rows = .ok one ∧
    ∀ order : List Nat, order.Perm (List.range g.rows) →
      s.Leaves (editEach of .unitRow order) of one ∧ s.Leaves (editEach of .unitCol order) of one

/-- Rows and columns that are set one after the other compose to the whole. -/
theorem Reachable.piecewiseLaws (h : s.Reachable) (hg : s.reading.matrix of = .ok g) :
    s.PiecewiseLaws of g := by
  have hperm {n : Nat} {order : List Nat} (horder : order.Perm (List.range n)) (i : Nat) :
      i ∈ order ↔ i < n :=
    horder.mem_iff.trans List.mem_range
  have hzeros (a b : Nat) (hab : a < g.rows ∧ b < g.cols) :
      (Grid.filled g.rows g.cols .zero : Grid p).read? a b = some .zero :=
    Grid.read?_filled hab .zero
  constructor
  case clear =>
    obtain ⟨t, hstep, hmatrix⟩ := h.sound.step_edit_run hg (e := .clear) rfl rfl g.clear_eq_filled
    refine ⟨?_, ?_⟩
    · simp [Store.run, hstep]
    · rw [Store.after, Store.after, hstep]
      exact hmatrix
  case clearRows =>
    exact fun order horder => h.sound.leaves_whole hg MatrixEdit.overwrites_clearRow
      (hperm horder) (by simp) rfl hzeros
  case clearCols =>
    exact fun order horder => h.sound.leaves_whole hg MatrixEdit.overwrites_clearCol
      (hperm horder) (by simp) rfl hzeros
  case identity =>
    intro hsquare
    obtain ⟨one, hone, hshape, hread⟩ := Grid.exists_identity (p := p) g.rows
    have hsame : one.shape = g.shape := hshape.trans (Prod.ext rfl hsquare)
    have hbounds (axis : Axis) : g.bound axis = g.rows := by
      cases axis with
      | row => rfl
      | column => exact hsquare.symm
    refine ⟨one, hone, fun order horder => ⟨?_, ?_⟩⟩
    · refine h.sound.leaves_whole hg MatrixEdit.overwrites_unitRow ?_ ?_ hsame ?_
      · exact hperm horder
      · simp [hbounds]
      · exact fun a b hab => hread a b ⟨hab.1, hsquare ▸ hab.2⟩
    · refine h.sound.leaves_whole hg MatrixEdit.overwrites_unitCol ?_ ?_ hsame ?_
      · exact fun i => (hperm horder i).trans (by rw [hbounds])
      · simp [hbounds]
      · exact fun a b hab => hread a b ⟨hab.1, hsquare ▸ hab.2⟩

def clonedNaNs : Store .single :=
  Store.after {} [.act (.matrix (.filled 2 2 (.nan false) "m")),
    .act (.sharing (.clone .matrix "m" "n"))]

/-- From the last to the first, unit rows of the clone come to the identity, and cleared columns to
zeros. -/
theorem piecewiseLaws_clonedNaNs : clonedNaNs.Reachable ∧ clonedNaNs.strong 0 = 2 ∧
    ∃ one, Grid.identity 2 = .ok one ∧ clonedNaNs.Leaves (editEach "n" .unitRow [1, 0]) "n" one ∧
      clonedNaNs.Leaves (editEach "n" .clearCol [1, 0]) "n" (.filled 2 2 .zero) := by
  have hreachable : clonedNaNs.Reachable := Reachable.start.after _
  have hmatrix : clonedNaNs.reading.matrix "n" = .ok (.filled 2 2 (.nan false)) := rfl
  have hlaws := hreachable.piecewiseLaws hmatrix
  have horder : [1, 0].Perm (List.range 2) := by decide
  obtain ⟨one, hone, hunits⟩ := hlaws.identity rfl
  exact ⟨hreachable, by decide, one, hone, (hunits [1, 0] horder).1, hlaws.clearCols [1, 0] horder⟩

end Store
end CowArrays
