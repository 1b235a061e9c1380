import CowArrays.Proofs.Scalar.Sums
import CowArrays.Proofs.Sharing.Accounting
import CowArrays.Proofs.Storage.Listings

/-!
Comparison of a matrix with the transpose of another one. Whichever of the two comes first, the walk
over its entries stays inside both and comes to the same answer, since a difference that is taken the
other way round has the same magnitude. A transpose that was built entry by entry is recognised where
all entries are finite, and nowhere else: an infinity differs from itself by a NaN, which is within no
tolerance.
-/

namespace CowArrays

variable {p : Precision}

namespace Grid

variable {g h : Grid p} {t : Scalar p}

/-- Whether grids have transposed shapes, and no two of their counterparts are further apart than a
tolerance. -/
structure TransposedWithin (t : Scalar p) (g h : Grid p) : Prop where
  rows_eq : g.rows = h.cols
  cols_eq : g.cols = h.rows
  near : ∀ i j x y, g.read? i j = some x → h.read? j i = some y → (x - y).magnitude.le t = true

theorem TransposedWithin.symm (hgh : TransposedWithin t g h) : TransposedWithin t h g where
  rows_eq := hgh.cols_eq.symm
  cols_eq := hgh.rows_eq.symm
  near j i y x hy hx := by
    rw [Scalar.magnitude_sub_le_comm]
    exact hgh.near i j x y hx hy

theorem exists_isTransposed (g h : Grid p) (t : Scalar p) :
    ∃ answer, g.isTransposed h t = .ok answer ∧ (answer = true ↔ TransposedWithin t g h) := by
  by_cases hshape : g.rows = h.cols ∧ g.cols = h.rows
  · have hentry (i : Nat) (hi : i < g.rows) (j : Nat) (hj : j < g.cols) :
        ∃ b, (do return ((← g.read i j) - (← h.read j i)).magnitude.le t : Attempt Bool) = .ok b ∧
          (b = true ↔ ∀ x y, g.read? i j = some x → h.read? j i = some y →
            (x - y).magnitude.le t = true) := by
      obtain ⟨x, hx⟩ := exists_read? (g := g) ⟨hi, hj⟩
      obtain ⟨y, hy⟩ := exists_read? (g := h) (i := j) (j := i) ⟨hshape.2 ▸ hj, hshape.1 ▸ hi⟩
      rw [(read_of_read? hx).2, (read_of_read? hy).2]
      exact ⟨_, rfl, by simp [hx, hy]⟩
    obtain ⟨answer, hanswer, hiff⟩ := Attempt.exists_allM (l := List.range g.rows) fun i hi =>
      Attempt.exists_allM (l := List.range g.cols) fun j hj =>
        hentry i (List.mem_range.1 hi) j (List.mem_range.1 hj)
    refine ⟨answer, (if_pos hshape).trans hanswer, hiff.trans ⟨fun hnear => ?_, fun hgh => ?_⟩⟩
    · refine ⟨hshape.1, hshape.2, fun i j x y hx hy => ?_⟩
      obtain ⟨hi, hj⟩ := (read_of_read? hx).1
      exact hnear i (List.mem_range.2 hi) j (List.mem_range.2 hj) x y hx hy
    · exact fun i _ j _ => hgh.near i j
  · exact ⟨false, if_neg hshape, by
      simpa using fun hgh : TransposedWithin t g h => hshape ⟨hgh.rows_eq, hgh.cols_eq⟩⟩

/-- The grid that is built by asking for each entry of `g` the other way round. -/
def transposed (g : Grid p) : Attempt (Grid p) := do
  let made ← (buildM (m := Attempt) g.cols g.rows fun i j => g.read j i).run
  made

theorem exists_transposed (g : Grid p) : ∃ h, g.transposed = .ok h ∧ h.shape = (g.cols, g.rows) ∧
    ∀ i j, h.read? j i = g.read? i j := by
  obtain ⟨h, hh, hshape, hread⟩ := exists_ofTable (t := ⟨g.cols, g.rows, fun i j => g.read j i⟩)
    fun i j hij => read_ok hij.symm
  refine ⟨h, hh, hshape, fun i j => ?_⟩
  obtain ⟨hrows, hcols⟩ := Prod.mk.inj hshape
  by_cases hij : i < g.rows ∧ j < g.cols
  · obtain ⟨x, hx, hhx⟩ := hread j i hij.symm
    rw [hhx, read_eq_ok.1 hx]
  · rw [read?_eq_none hij, read?_eq_none (by rwa [hrows, hcols, and_comm])]

/-- A grid and its transpose are apart where an entry is not finite. -/
theorem transposedWithin_iff (ht : Scalar.zero.le t = true) (hshape : h.shape = (g.cols, g.rows))
    (hread : ∀ i j, h.read? j i = g.read? i j) :
    TransposedWithin t g h ↔ ∀ i j x, g.read? i j = some x → x.isFinite = true := by
  obtain ⟨hrows, hcols⟩ := Prod.mk.inj hshape
  constructor
  · intro hgh i j x hx
    rw [← Scalar.magnitude_sub_self_le ht]
    exact hgh.near i j x x hx ((hread i j).trans hx)
  · refine fun hfinite => ⟨hcols.symm, hrows.symm, fun i j x y hx hy => ?_⟩
    obtain rfl : x = y := Option.some.inj (hx.symm.trans ((hread i j).symm.trans hy))
    rw [Scalar.magnitude_sub_self_le ht]
    exact hfinite i j x hx

end Grid

namespace Store

variable {s : Store p} {a b : Name} {g h : Grid p}

theorem step_isTransposed (hg : s.reading.matrix a = .ok g) (hh : s.reading.matrix b = .ok h)
    {t : Scalar p} {answer : Bool} (hanswer : g.isTransposed h t = .ok answer) :
    s.step (.act (.matrix (.isTransposed a b t))) = (.ok (.bool answer), s) := by
  have hplan : s.plan (.act (.matrix (.isTransposed a b t))) = .ok (.tell (.bool answer)) := by
    show (MatrixStep.isTransposed a b t).plan s.reading = _
    simp only [MatrixStep.plan, hg, hh, hanswer, Attempt.ok_bind, Attempt.pure_eq_ok]
  exact step_of_ok hplan

/-- The comparison succeeds on all matrices, and comes to the same with either of them first. -/
theorem isTransposed_symm (hg : s.reading.matrix a = .ok g) (hh : s.reading.matrix b = .ok h)
    (t : Scalar p) : ∃ answer,
      s.step (.act (.matrix (.isTransposed a b t))) = (.ok (.bool answer), s) ∧
      s.step (.act (.matrix (.isTransposed b a t))) = (.ok (.bool answer), s) ∧
      (answer = true ↔ Grid.TransposedWithin t g h) := by
  obtain ⟨answer, hanswer, hiff⟩ := g.exists_isTransposed h t
  obtain ⟨answer', hanswer', hiff'⟩ := h.exists_isTransposed g t
  have hsame : answer = answer' :=
    Bool.eq_iff_iff.2 (hiff.trans ((Iff.intro .symm .symm).trans hiff'.symm))
  exact ⟨answer, step_isTransposed hg hh hanswer, step_isTransposed hh hg (hsame ▸ hanswer'), hiff⟩

def stripedGrid : Grid .single := ⟨2, 2, #[.unit, .unit, .zero, -.zero], rfl⟩

def clonedStripes : Store .single :=
  Store.after {} [.act (.matrix (.create stripedGrid "m")),
    .act (.sharing (.clone .matrix "m" "n"))]

/-- The rows are apart from the columns by one, whichever of the two comes first. -/
theorem isTransposed_symm_clonedStripes :
    clonedStripes.step (.act (.matrix (.isTransposed "m" "n" .unit))) =
      (.ok (.bool true), clonedStripes) ∧
    clonedStripes.step (.act (.matrix (.isTransposed "n" "m" .unit))) =
      (.ok (.bool true), clonedStripes) ∧
    Grid.TransposedWithin .unit stripedGrid stripedGrid := by
  have hmatrix : clonedStripes.reading.matrix "m" = .ok stripedGrid := rfl
  have hclone : clonedStripes.reading.matrix "n" = .ok stripedGrid := rfl
  have hmade : stripedGrid.isTransposed stripedGrid .unit = .ok true := by decide +kernel
  obtain ⟨answer, hfirst, hsecond, hiff⟩ := isTransposed_symm hmatrix hclone .unit
  have hstep := step_isTransposed hmatrix hclone hmade
  rw [hfirst] at hstep
  obtain rfl : answer = true := Answer.bool.inj (Except.ok.inj (congrArg Prod.fst hstep))
  exact ⟨hfirst, hsecond, hiff.1 rfl⟩

/-- A matrix that is compared with its transpose, built from its entries, is recognised exactly where
all of them are finite. -/
theorem Reachable.isTransposed_transposed (hs : s.Reachable) (hg : s.reading.matrix a = .ok g)
    (hne : a ≠ b) {tolerance : Scalar p} (htolerance : Scalar.zero.le tolerance = true) :
    ∃ h t answer, g.transposed = .ok h ∧
      s.step (.act (.matrix (.create h b))) = (.ok .done, t) ∧
      t.step (.act (.matrix (.isTransposed a b tolerance))) = (.ok (.bool answer), t) ∧
      (answer = true ↔ ∀ i j x, g.read? i j = some x → x.isFinite = true) := by
  obtain ⟨h, hmade, hshape, hread⟩ := g.exists_transposed
  obtain ⟨answer, hanswer, hiff⟩ := g.exists_isTransposed h tolerance
  have hplan : s.plan (.act (.matrix (.create h b))) =
      .ok ⟨.done, [.create .matrix b (.matrix h)]⟩ := rfl
  obtain ⟨t, hstep, hvalue⟩ := hs.sound.step_create hplan
  have hkept := hs.sound.value?_step (n := a) (t := .act (.matrix (.create h b)))
    fun hmem => hne (List.mem_singleton.1 hmem)
  rw [hstep] at hkept
  have hg' : t.reading.matrix a = .ok g :=
    Reading.matrix_eq_ok.2 (hkept.trans (Reading.matrix_eq_ok.1 hg))
  exact ⟨h, t, answer, hmade, hstep,
    step_isTransposed hg' (Reading.matrix_eq_ok.2 hvalue) hanswer,
    hiff.trans (Grid.transposedWithin_iff htolerance hshape hread)⟩

/-- A column of the greatest finite scalar, a negative zero and the least positive scalar. -/
def finiteColumn : Grid .double :=
  ⟨3, 1, #[.ofBits 0x7fefffffffffffff, .signedZero true, .ofBits 1], rfl⟩

/-- The column is recognised as the transpose of the row that is built from it, also with a negative
zero for a tolerance. -/
theorem isTransposed_transposed_finiteColumn :
    let s : Store .double := Store.after {} [.act (.matrix (.create finiteColumn "m"))]
    s.Reachable ∧ (Scalar.zero : Scalar .double).le (.signedZero true) = true ∧
      ∃ h t, finiteColumn.transposed = .ok h ∧
        s.step (.act (.matrix (.create h "n"))) = (.ok .done, t) ∧
        t.step (.act (.matrix (.isTransposed "m" "n" (.signedZero true)))) =
          (.ok (.bool true), t) := by
  intro s
  have hreachable : s.Reachable := Reachable.start.after _
  have htolerance : (Scalar.zero : Scalar .double).le (.signedZero true) = true := by decide
  have hmatrix : s.reading.matrix "m" = .ok finiteColumn := rfl
  obtain ⟨h, t, answer, hmade, hstep, hanswer, hiff⟩ :=
    hreachable.isTransposed_transposed hmatrix (b := "n") (by decide) htolerance
  have hfinite : ∀ x ∈ finiteColumn.entries, x.isFinite = true := by decide +kernel
  obtain rfl : answer = true :=
    hiff.2 fun i j x hx => hfinite x (Grid.mem_entries_of_read? hx)
  exact ⟨hreachable, htolerance, h, t, hmade, hstep, hanswer⟩

/-- An infinity is not recognised as what it was built from. -/
theorem infinite_transpose_refused :
    let g : Grid .single := .filled 1 1 (.infinite false)
    let s : Store .single :=
      Store.after {} [.act (.matrix (.create g "m")), .act (.matrix (.create g "n"))]
    g.transposed = .ok g ∧ (∀ i j x, g.read? i j = some x → x.isNaN = false) ∧
      (Scalar.zero : Scalar .single).le .zero = true ∧
      s.step (.act (.matrix (.isTransposed "m" "n" .zero))) = (.ok (.bool false), s) := by
  intro g s
  refine ⟨by decide +kernel, fun i j x hx => ?_, by decide, ?_⟩
  · have hentry := Grid.mem_entries_of_read? hx
    obtain rfl := Array.eq_of_mem_replicate hentry
    decide
  · exact step_isTransposed (g := g) (h := g) rfl rfl (by decide +kernel)

end Store
end CowArrays
