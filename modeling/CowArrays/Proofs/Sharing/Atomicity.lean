import CowArrays.Proofs.Sharing.Accounting
import CowArrays.Proofs.Triplet.Faults

/-!
Failing steps are atomic. Whatever a step fails with, the store behind it is the store before it: no
container has moved to a cell of its own, nothing was cleared or written, and whoever was observed
alive is alive. What dooms a step is known before: an entry, a row or a column that is not there,
shapes that differ, a text that cannot be read.
-/

namespace CowArrays

variable {p : Precision}

/-! ### What dooms a step -/

inductive VectorStep.Enters (i : Nat) : VectorStep p → VectorKind → Name → Prop
  | get (k : VectorKind) (of : Name) : Enters i (.query k of (.get i)) k of
  | set (k : VectorKind) (of : Name) (x : Scalar p) : Enters i (.edit k of (.set i x)) k of
  | add (k : VectorKind) (of : Name) (x : Scalar p) : Enters i (.edit k of (.add i x)) k of

inductive MatrixStep.Enters (i j : Nat) : MatrixStep p → Name → Prop
  | get (of : Name) : Enters i j (.query of (.get i j)) of
  | set (of : Name) (x : Scalar p) : Enters i j (.edit of (.set i j x)) of
  | add (of : Name) (x : Scalar p) : Enters i j (.edit of (.add i j x)) of

inductive PatternStep.Enters (i : Nat) : PatternStep p → Name → Prop
  | row (of : Name) : Enters i (.query of (.row i)) of
  | insert (of : Name) (j : Nat) : Enters i (.edit of (.insert i j)) of
  | erase (of : Name) (j : Nat) : Enters i (.edit of (.erase i j)) of
  | insertAll (of : Name) (js : List Nat) : Enters i (.edit of (.insertAll i js)) of

/-- Steps that combine a matrix entry by entry with another one. -/
inductive MatrixStep.Combines (other : Name) : MatrixStep p → Name → Prop
  | axpy (of : Name) (a : Scalar p) : Combines other (.edit of (.axpy a other)) of
  | addExceeding (of : Name) (eps : Scalar p) : Combines other (.edit of (.addExceeding other eps)) of

/-- Steps on variables that are there and do not fit what is asked of them, and what they fail
with. -/
inductive Step.Doomed (r : Reading p) : Step p → Failure → Prop
  | vectorEntry {t : VectorStep p} {k : VectorKind} {of : Name} {i : Nat} {v : Line p}
      {isView : Bool} (enters : t.Enters i k of) (found : k.read r of = .ok (v, isView))
      (outside : v.size ≤ i) : Doomed r (.act (.vector t)) (.outOfRange (.vector i v.size))
  | vectorSizes {k : VectorKind} {of other : Name} {a : Scalar p} {v w : Line p} {b c : Bool}
      (found : k.read r of = .ok (v, b)) (found' : k.read r other = .ok (w, c))
      (differ : v.size ≠ w.size) : Doomed r (.act (.vector (.edit k of (.axpy a other))))
        (.refused (.shapeMismatch (v.size, 1) (w.size, 1)))
  | matrixEntry {t : MatrixStep p} {of : Name} {i j : Nat} {g : Grid p} (enters : t.Enters i j of)
      (found : r.matrix of = .ok g) (outside : ¬(i < g.rows ∧ j < g.cols)) :
      Doomed r (.act (.matrix t)) (.outOfRange (.matrix i j g.rows g.cols))
  | matrixShapes {t : MatrixStep p} {of other : Name} {g h : Grid p}
      (combines : t.Combines other of) (found : r.matrix of = .ok g)
      (found' : r.matrix other = .ok h) (differ : g.shape ≠ h.shape) :
      Doomed r (.act (.matrix t)) (.refused (.shapeMismatch g.shape h.shape))
  | clearRow {of : Name} {i : Nat} {g : Grid p} (found : r.matrix of = .ok g)
      (outside : g.rows ≤ i) : Doomed r (.act (.matrix (.edit of (.clearRow i))))
        (.refused (.indexOutOfRange .row i g.rows))
  | clearCol {of : Name} {j : Nat} {g : Grid p} (found : r.matrix of = .ok g)
      (outside : g.cols ≤ j) : Doomed r (.act (.matrix (.edit of (.clearCol j))))
        (.refused (.indexOutOfRange .column j g.cols))
  | unitRow {of : Name} {i : Nat} {g : Grid p} {failure : Failure} (found : r.matrix of = .ok g)
      (outside : Outside g.rows g.cols i i failure) :
      Doomed r (.act (.matrix (.edit of (.unitRow i)))) failure
  /-- The column is looked at first. -/
  | unitCol {of : Name} {j : Nat} {g : Grid p} (found : r.matrix of = .ok g)
      (outside : g.cols ≤ j) : Doomed r (.act (.matrix (.edit of (.unitCol j))))
        (.refused (.indexOutOfRange .column j g.cols))
  | unitColRow {of : Name} {j : Nat} {g : Grid p} (found : r.matrix of = .ok g)
      (inside : j < g.cols) (outside : g.rows ≤ j) :
      Doomed r (.act (.matrix (.edit of (.unitCol j)))) (.refused (.indexOutOfRange .row j g.rows))
  | factor {walk : Walk} {of x y : Name} {g : Grid p} {v w : Line p} (found : r.matrix of = .ok g)
      (foundX : r.vector x = .ok v) (foundY : r.vector y = .ok w) (differ : g.cols ≠ v.size) :
      Doomed r (.act (.matrix (.multiply walk of x y)))
        (.refused (.shapeMismatch (g.cols, 1) (v.size, 1)))
  | product {walk : Walk} {of x y : Name} {g : Grid p} {v w : Line p} (found : r.matrix of = .ok g)
      (foundX : r.vector x = .ok v) (foundY : r.vector y = .ok w) (fits : g.cols = v.size)
      (differ : g.rows ≠ w.size) : Doomed r (.act (.matrix (.multiply walk of x y)))
        (.refused (.shapeMismatch (g.rows, 1) (w.size, 1)))
  | load {of out : Name} {feed : Feed} {g : Grid p} {failure : Failure}
      (found : r.matrix of = .ok g) (unfit : Triplet.Unfit g.rows g.cols feed failure) :
      Doomed r (.act (.matrix (.load of feed out))) failure
  | patternRow {t : PatternStep p} {of : Name} {i : Nat} {x : Pattern} (enters : t.Enters i of)
      (found : r.pattern of = .ok x) (outside : x.size ≤ i) :
      Doomed r (.act (.pattern t)) (.outOfRange (.pattern i x.size))

/-! ### Doomed steps fail in their checks -/

variable {r : Reading p} {failure : Failure}

/-- Matrices of one column and different lengths have different shapes. -/
theorem checkShape_column_eq_error {m n : Nat} (h : m ≠ n) :
    checkShape (m, 1) (n, 1) = .error (.refused (.shapeMismatch (m, 1) (n, 1))) :=
  checkShape_eq_error fun heq => h (congrArg Prod.fst heq)

theorem VectorStep.Enters.plan_eq {t : VectorStep p} {k : VectorKind} {of : Name} {i : Nat}
    {v : Line p} {isView : Bool} (h : t.Enters i k of) (found : k.read r of = .ok (v, isView))
    (outside : v.size ≤ i) : t.plan r = .error (.outOfRange (.vector i v.size)) := by
  have hcheck := Line.checkRange_eq_error outside
  cases h with
  | get k of => simp [VectorStep.plan, found, VectorQuery.answer, Line.read, hcheck, Except.map]
  | set k of x | add k of x => simp [VectorStep.plan, found, VectorEdit.check, hcheck]

theorem MatrixStep.plan_edit_eq_error {of : Name} {e : MatrixEdit p} {g : Grid p}
    (found : r.matrix of = .ok g) (h : e.check r g = .error failure) :
    (MatrixStep.edit of e).plan r = .error failure := by
  simp [MatrixStep.plan, found, h]

theorem MatrixStep.Enters.plan_eq {t : MatrixStep p} {of : Name} {i j : Nat} {g : Grid p}
    (h : t.Enters i j of) (found : r.matrix of = .ok g) (outside : ¬(i < g.rows ∧ j < g.cols)) :
    t.plan r = .error (.outOfRange (.matrix i j g.rows g.cols)) := by
  have hcheck := Grid.checkRange_eq_error outside
  cases h with
  | get of => simp [MatrixStep.plan, found, MatrixQuery.answer, Grid.read, hcheck, Except.map]
  | set of x | add of x => exact plan_edit_eq_error found hcheck

theorem MatrixStep.Combines.plan_eq {t : MatrixStep p} {of other : Name} {g h : Grid p}
    (hc : t.Combines other of) (found : r.matrix of = .ok g) (found' : r.matrix other = .ok h)
    (differ : g.shape ≠ h.shape) :
    t.plan r = .error (.refused (.shapeMismatch g.shape h.shape)) := by
  cases hc with
  | axpy of a | addExceeding of eps =>
    refine plan_edit_eq_error found ?_
    rw [MatrixEdit.check, found', Attempt.ok_bind, checkShape_eq_error differ]

theorem PatternStep.Enters.plan_eq {t : PatternStep p} {of : Name} {i : Nat} {x : Pattern}
    (h : t.Enters i of) (found : r.pattern of = .ok x) (outside : x.size ≤ i) :
    t.plan r = .error (.outOfRange (.pattern i x.size)) := by
  have hrow := Pattern.row_eq_error outside
  cases h with
  | row of => simp [PatternStep.plan, found, PatternQuery.answer, hrow, Except.map]
  | insert of j | erase of j | insertAll of js =>
    simp [PatternStep.plan, found, PatternEdit.run, Pattern.insert, Pattern.erase,
      Pattern.insertAll, hrow]

/-- A doomed step is refused before it plans any change. -/
theorem Step.Doomed.plan_eq {s : Store p} {t : Step p} (h : t.Doomed s.reading failure) :
    s.plan t = .error failure := by
  cases h with
  | vectorEntry enters found outside => exact enters.plan_eq found outside
  | vectorSizes found found' differ =>
    show (VectorStep.edit _ _ _).plan s.reading = _
    simp only [VectorStep.plan, found, found', VectorEdit.check, Attempt.ok_bind, Line.shape,
      checkShape_column_eq_error differ, Attempt.error_bind]
  | matrixEntry enters found outside => exact enters.plan_eq found outside
  | matrixShapes combines found found' differ => exact combines.plan_eq found found' differ
  | clearRow found outside | clearCol found outside =>
    exact MatrixStep.plan_edit_eq_error found (checkIndex_eq_error outside)
  | unitRow found outside => exact MatrixStep.plan_edit_eq_error found outside.check
  | unitCol found outside =>
    refine MatrixStep.plan_edit_eq_error found ?_
    rw [MatrixEdit.check, checkCol, checkIndex_eq_error outside, Attempt.error_bind]
  | unitColRow found inside outside =>
    refine MatrixStep.plan_edit_eq_error found ?_
    rw [MatrixEdit.check, checkCol, checkIndex_eq_ok.2 inside, Attempt.ok_bind]
    exact checkIndex_eq_error outside
  | factor found foundX foundY differ =>
    show (MatrixStep.multiply _ _ _ _).plan s.reading = _
    simp only [MatrixStep.plan, found, foundX, foundY, Grid.checkFactors, Attempt.ok_bind,
      Line.shape, checkShape_column_eq_error differ, Attempt.error_bind]
  | product found foundX foundY fits differ =>
    show (MatrixStep.multiply _ _ _ _).plan s.reading = _
    have hfits := checkShape_eq_ok.2 (congrArg (·, 1) fits)
    simp only [MatrixStep.plan, found, foundX, foundY, Grid.checkFactors, Attempt.ok_bind,
      Line.shape, hfits, checkShape_column_eq_error differ, Attempt.error_bind]
  | load found unfit =>
    show (MatrixStep.load _ _ _).plan s.reading = _
    simp only [MatrixStep.plan, found, unfit.readInside, Attempt.ok_bind, Attempt.error_bind]
  | patternRow enters found outside => exact enters.plan_eq found outside

namespace Store

variable {s : Store p}

/-- Every failing step is atomic: whatever it fails with, in whatever state of sharing, it leaves the
store as it was. A doomed step does fail, and with what its first offence says. -/
theorem Reachable.step_atomic (h : s.Reachable) (t : Step p) :
    (∀ failure, (s.step t).1 = .error failure → (s.step t).2 = s) ∧
      ∀ failure, t.Doomed s.reading failure → s.step t = (.error failure, s) :=
  ⟨fun _ hfail => h.sound.step_of_failed hfail, fun _ hdoomed => step_of_error hdoomed.plan_eq⟩

def clonedMatrix : Store .double :=
  ((({} : Store .double).step (.act (.matrix (.filled 2 2 .zero "m")))).2.step
    (.act (.sharing (.clone .matrix "m" "n")))).2

/-- A text whose second position is outside of two rows. -/
def strayText : Octets := "0,0,1\n5,0,1\n".toList.map fun c => UInt8.ofNat c.toNat

theorem step_atomic_strayText : clonedMatrix.Reachable ∧ clonedMatrix.strong 0 = 2 ∧
    clonedMatrix.step (.act (.matrix (.load "m" strayText "q"))) =
      (.error (.refused (.indexOutOfRange .row 5 2)), clonedMatrix) := by
  have hreachable : clonedMatrix.Reachable := .step _ (.step _ .start)
  let one : Scalar .double := .ofLiteral (.number false ⟨1, 0⟩)
  have hread : Triplet.readAll strayText = .ok ([⟨0, 0, one⟩] ++ ⟨5, 0, one⟩ :: []) := rfl
  have hgood : ∀ t ∈ [(⟨0, 0, one⟩ : Triplet)], t.row < 2 ∧ t.col < 2 := by simp
  have hunfit : Triplet.Unfit 2 2 strayText (.refused (.indexOutOfRange .row 5 2)) :=
    .position hread hgood (.row (by decide))
  refine ⟨hreachable, by decide, ?_⟩
  exact (Reachable.step_atomic hreachable _).2 _ (.load (g := .filled 2 2 .zero) rfl hunfit)

end Store
end CowArrays
