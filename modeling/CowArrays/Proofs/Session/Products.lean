import CowArrays.Proofs.Sharing.Atomicity
import CowArrays.Proofs.Storage.Products

/-!
Product steps. The sizes of both lines are looked at before anything is touched; then every entry of
the vector that the product goes to is replaced by the sum of its row, and nothing else changes,
whichever variables are on the same cell.
-/

namespace CowArrays.Store

variable {p : Precision} {s : Store p} {of x y : Name} {g : Grid p} {v w : Line p}

/-- Sizes that fit let a product through, and it leaves what the walk over the grid makes. -/
theorem Sound.step_multiply (hs : s.Sound) (hg : s.reading.matrix of = .ok g)
    (hv : s.reading.vector x = .ok v) (hw : s.reading.vector y = .ok w) (hx : v.size = g.cols)
    (hy : w.size = g.rows) {walk : Walk} {u : Line p} (hu : g.apply walk v w = .ok u) :
    ∃ t, s.step (.act (.matrix (.multiply walk of x y))) = (.ok .done, t) ∧
      t.reading.vector y = .ok u := by
  have hplan : s.plan (.act (.matrix (.multiply walk of x y))) = .ok (.edit y fun r => do
      return .vector (← (← r.matrix of).apply walk (← r.vector x) (← r.vector y))) := by
    have hfactors : g.checkFactors v w = .ok () := Grid.checkFactors_eq_ok.2 ⟨hx, hy⟩
    show (MatrixStep.multiply walk of x y).plan s.reading = _
    simp only [MatrixStep.plan, hg, hv, hw, hfactors, Attempt.ok_bind, Attempt.pure_eq_ok]
  -- the vector gets a cell of its own first, behind which both factors read as before
  obtain ⟨t, hstep, hvector, -⟩ := hs.step_edit (e := ⟨.vector u, none⟩) hplan
    (Reading.vector_eq_ok.1 hw) (by simp [Reading.matrix_own hg, Reading.vector_own hv,
      Reading.vector_own hw, hu, Except.map]) fun _ hnone => by cases hnone
  exact ⟨t, hstep, Reading.vector_eq_ok.2 hvector⟩

/-- What a product of a matrix and a vector comes to, on either walk, when it goes to another
vector. -/
structure MultiplyLaws (s : Store p) (of x y : Name) (g : Grid p) (v w : Line p) : Prop where
  /-- A factor that does not fit is refused first, and nothing changes. -/
  factor : ∀ walk, v.size ≠ g.cols → s.step (.act (.matrix (.multiply walk of x y))) =
    (.error (.refused (.shapeMismatch (g.cols, 1) (v.size, 1))), s)
  /-- Then a vector is refused that the product does not fit in. -/
  target : ∀ walk, v.size = g.cols → w.size ≠ g.rows →
    s.step (.act (.matrix (.multiply walk of x y))) =
      (.error (.refused (.shapeMismatch (g.rows, 1) (w.size, 1))), s)
  /-- Otherwise each entry is the sum of its row, which nothing of `w` goes into. -/
  entries : ∀ walk, v.size = g.cols → w.size = g.rows →
    ∃ u t, s.step (.act (.matrix (.multiply walk of x y))) = (.ok .done, t) ∧
      t.reading.vector y = .ok u ∧ u.size = g.rows ∧
      ∀ i < g.rows, u[i]? = g.rowSum? v i g.cols
  /-- The factors stay, also where the vectors were on one cell. -/
  factors : ∀ walk,
    (s.step (.act (.matrix (.multiply walk of x y)))).2.reading.matrix of = .ok g ∧
      (x ≠ y → (s.step (.act (.matrix (.multiply walk of x y)))).2.reading.vector x = .ok v)
  /-- So does every other variable. -/
  others : ∀ walk n, n ≠ y →
    (s.step (.act (.matrix (.multiply walk of x y)))).2.reading.value? n = s.reading.value? n
  /-- The walks make the same of all grids and lines, bit for bit, and lead to the same store. -/
  walks : (∀ (g : Grid p) (v w : Line p), g.apply .byRow v w = g.apply .byEntry v w) ∧
    s.step (.act (.matrix (.multiply .byRow of x y))) =
      s.step (.act (.matrix (.multiply .byEntry of x y)))

/-- Products are sums of rows, whatever is shared. -/
theorem Reachable.multiplyLaws (h : s.Reachable) (hg : s.reading.matrix of = .ok g)
    (hv : s.reading.vector x = .ok v) (hw : s.reading.vector y = .ok w) :
    s.MultiplyLaws of x y g v w := by
  have hothers (walk : Walk) (n : Name) (hn : n ≠ y) :
      (s.step (.act (.matrix (.multiply walk of x y)))).2.reading.value? n =
        s.reading.value? n :=
    h.sound.value?_step fun hmem => hn (List.mem_singleton.1 hmem)
  constructor
  case factor =>
    intro walk hdiffer
    exact step_of_error (Step.Doomed.plan_eq (.factor hg hv hw (Ne.symm hdiffer)))
  case target =>
    intro walk hfits hdiffer
    exact step_of_error (Step.Doomed.plan_eq (.product hg hv hw hfits.symm (Ne.symm hdiffer)))
  case entries =>
    intro walk hx hy
    obtain ⟨u, hu, hsize, hentries⟩ := Grid.exists_apply walk hx hy
    obtain ⟨t, hstep, hvector⟩ := h.sound.step_multiply hg hv hw hx hy hu
    exact ⟨u, t, hstep, hvector, hsize.trans hy, hentries⟩
  case factors =>
    intro walk
    have hne : of ≠ y := by
      rintro rfl
      cases (Reading.matrix_eq_ok.1 hg).symm.trans (Reading.vector_eq_ok.1 hw)
    refine ⟨Reading.matrix_eq_ok.2 ?_, fun hxy => Reading.vector_eq_ok.2 ?_⟩
    · exact (hothers walk of hne).trans (Reading.matrix_eq_ok.1 hg)
    · exact (hothers walk x hxy).trans (Reading.vector_eq_ok.1 hv)
  case others => exact hothers
  case walks =>
    refine ⟨fun g v w => by rw [Grid.apply_byRow], ?_⟩
    have hplan : s.plan (.act (.matrix (.multiply .byRow of x y))) =
        s.plan (.act (.matrix (.multiply .byEntry of x y))) := by
      show (MatrixStep.multiply .byRow of x y).plan s.reading =
        (MatrixStep.multiply .byEntry of x y).plan s.reading
      simp only [MatrixStep.plan, Grid.apply_byRow]
    rw [Store.step, Store.step, hplan]

def swapGrid : Grid .single := ⟨2, 2, #[.zero, .unit, .unit, .zero], rfl⟩

def clonedFactor : Store .single :=
  Store.after {} [.act (.matrix (.create swapGrid "m")),
    .act (.vector (.create .dense "x" #[.zero, .unit])),
    .act (.sharing (.clone .vector "x" "y"))]

theorem multiplyLaws_clonedFactor : clonedFactor.Reachable ∧ clonedFactor.strong 1 = 2 ∧
    ∃ u t, clonedFactor.step (.act (.matrix (.multiply .byRow "m" "x" "y"))) = (.ok .done, t) ∧
      t.reading.vector "y" = .ok u ∧ u[0]? = some .unit ∧ u[1]? = some .zero ∧
      t.reading.vector "x" = .ok #[.zero, .unit] := by
  have hreachable : clonedFactor.Reachable := Reachable.start.after _
  have hmatrix : clonedFactor.reading.matrix "m" = .ok swapGrid := rfl
  have hfactor : clonedFactor.reading.vector "x" = .ok #[.zero, .unit] := rfl
  have htarget : clonedFactor.reading.vector "y" = .ok #[.zero, .unit] := rfl
  have hlaws := hreachable.multiplyLaws hmatrix hfactor htarget
  obtain ⟨u, t, hstep, hvector, -, hentries⟩ := hlaws.entries .byRow rfl rfl
  have hkept := (hlaws.factors .byRow).2 (by decide)
  rw [hstep] at hkept
  refine ⟨hreachable, by decide, u, t, hstep, hvector, ?_, ?_, hkept⟩
  · rw [hentries 0 (by decide)]
    decide +kernel
  · rw [hentries 1 (by decide)]
    decide +kernel

end CowArrays.Store
