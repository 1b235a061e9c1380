import CowArrays.Proofs.Scalar.Order
import CowArrays.Proofs.Session.Shapes
import CowArrays.Proofs.Sharing.Atomicity

/-!
Adding those entries of a matrix to another one that exceed a bound. The step looks for such an entry
before it touches the other matrix, so a matrix that has nothing to gain stays where it is; where
there is one, the step comes to the same as adding them one after the other.
-/

namespace CowArrays.Store

variable {p : Precision} {s : Store p} {of source : Name} {g h : Grid p} {eps : Scalar p}

/-! ### Grids put in the place of a matrix -/

/-- A store with a grid in the place of a matrix, on a cell of its own. -/
def putMatrix (s : Store p) (of : Name) (g : Grid p) : Store p :=
  (s.makeOwn of).settle of ⟨.matrix g, none⟩

theorem find?_putMatrix (n : Name) : (s.putMatrix of g).find? n = (s.makeOwn of).find? n :=
  find?_settle_of_ne nofun

/-- A matrix that was put in place is on a cell of its own, and the next one takes its place. -/
theorem Sound.putMatrix_putMatrix (hs : s.Sound) {c : CellId}
    (hc : s.find? of = some (.container .matrix c)) (g h : Grid p) :
    (s.putMatrix of g).putMatrix of h = s.putMatrix of h := by
  obtain ⟨d, hd, hunique⟩ := hs.accounted.isUnique_makeOwn hc
  have hfind : (s.putMatrix of g).find? of = some (.container .matrix d) := (find?_putMatrix of).trans hd
  have hput (h : Grid p) : s.putMatrix of h = (s.makeOwn of).modifyContent of fun _ => .matrix h :=
    rfl
  have hown : (s.putMatrix of g).makeOwn of = s.putMatrix of g := by
    have halone : (s.putMatrix of g).isUnique d = true := by
      rwa [hput, isUnique_modifyContent]
    have hsame : (s.putMatrix of g).makeUnique of = s.putMatrix of g := by
      simp only [Store.makeUnique, hfind, halone, if_true]
    rw [Store.makeOwn, hsame]
    refine modifyContent_eq_self fun kind c hc x hx => ?_
    obtain ⟨-, rfl⟩ := Binding.container.inj (Option.some.inj (hfind.symm.trans hc))
    -- what was put there is a grid, which is no view
    rw [hput, content?_modifyContent hd, if_pos rfl] at hx
    obtain ⟨_, -, rfl⟩ := Option.map_eq_some_iff.1 hx
    rfl
  show ((s.putMatrix of g).makeOwn of).modifyContent of (fun _ => .matrix h) = s.putMatrix of h
  rw [hown, hput, modifyContent_modifyContent]
  rfl

/-- A matrix that is put in place stays on its cell exactly where it is alone there. -/
theorem Sound.find?_putMatrix_self (hs : s.Sound) {c : CellId}
    (hc : s.find? of = some (.container .matrix c)) :
    (s.putMatrix of g).find? of = some (.container .matrix c) ↔ ∀ n, s.On c n → n = of := by
  rw [find?_putMatrix]
  constructor
  · intro hstays n hon
    by_contra hn
    obtain ⟨d, hd, hunique⟩ := hs.accounted.isUnique_makeOwn hc
    obtain ⟨-, rfl⟩ := Binding.container.inj (Option.some.inj (hd.symm.trans hstays))
    -- another variable on the cell did not move, so the matrix would not be alone there
    have hon' : (s.makeOwn of).On d n := by rwa [On, find?_makeOwn_of_ne hn]
    exact hn (((hs.makeOwn of).accounted.isUnique_iff hd).1 hunique n hon')
  · intro halone
    have hunique : s.isUnique c = true := (hs.accounted.isUnique_iff hc).2 halone
    have hsame : s.makeUnique of = s := by simp only [Store.makeUnique, hc, hunique, if_true]
    rw [Store.makeOwn, find?_modifyContent, hsame, hc]

theorem Sound.exists_find?_putMatrix (hs : s.Sound) {c : CellId} {n : Name}
    (hc : s.find? of = some (.container .matrix c)) (hn : n ≠ of) (hon : s.On c n) :
    ∃ d, d ≠ c ∧ (s.putMatrix of g).find? of = some (.container .matrix d) := by
  obtain ⟨d, hd, -⟩ := hs.accounted.isUnique_makeOwn hc
  have hfind : (s.putMatrix of g).find? of = some (.container .matrix d) := (find?_putMatrix of).trans hd
  refine ⟨d, ?_, hfind⟩
  rintro rfl
  exact hn ((hs.find?_putMatrix_self hc).1 hfind n hon)

/-- An edit of a matrix puts the grid in its place that it makes. -/
theorem Sound.step_edit_put (hs : s.Sound) (hg : s.reading.matrix of = .ok g) {e : MatrixEdit p}
    {g' : Grid p} (hcheck : e.check s.reading g = .ok ()) (hneeded : e.isNeeded s.reading = .ok true)
    (hrun : e.run (s.reading.own of) g = .ok g') :
    s.step (.act (.matrix (.edit of e))) = (.ok .done, s.putMatrix of g') ∧
      (s.putMatrix of g').reading.matrix of = .ok g' := by
  obtain ⟨t, hstep, hmatrix⟩ := hs.step_edit_run hg hcheck hneeded hrun
  have hput : s.step (.act (.matrix (.edit of e))) = (.ok .done, s.putMatrix of g') :=
    hs.step_edit_eq (e := ⟨.matrix g', none⟩) (plan_edit_run hg hcheck hneeded)
      (by simp [Reading.matrix_own hg, hrun, Except.map])
  obtain rfl : t = s.putMatrix of g' := congrArg Prod.snd (hstep.symm.trans hput)
  exact ⟨hput, hmatrix⟩

/-! ### Entries added one after the other -/

def addStep (of : Name) (e : Nat × Nat × Scalar p) : Step p :=
  .act (.matrix (.edit of (.add e.1 e.2.1 e.2.2)))

theorem Sound.step_addStep (hs : s.Sound) (hg : s.reading.matrix of = .ok g) {g' : Grid p}
    {e : Nat × Nat × Scalar p} (he : g.add e.1 e.2.1 e.2.2 = .ok g') :
    s.step (addStep of e) = (.ok .done, s.putMatrix of g') ∧
      (s.putMatrix of g').reading.matrix of = .ok g' := by
  obtain ⟨hcheck, hrun⟩ := Attempt.seq_eq_ok.1 he
  exact hs.step_edit_put (e := .add e.1 e.2.1 e.2.2) hg hcheck rfl hrun

/-- Steps that add to entries leave what the additions come to, on a cell that the first of them made
its own. -/
theorem Sound.after_addSteps (hs : s.Sound) (hg : s.reading.matrix of = .ok g) {g' : Grid p}
    {l : List (Nat × Nat × Scalar p)} (hl : l ≠ [])
    (hrun : l.foldlM (fun g e => g.add e.1 e.2.1 e.2.2) g = .ok g') :
    s.after (l.map (addStep of)) = s.putMatrix of g' := by
  obtain ⟨c, hc, -⟩ := value?_eq_container.1 (Reading.matrix_eq_ok.1 hg)
  induction l generalizing s g c with
  | nil => exact absurd rfl hl
  | cons e rest ih =>
    rw [List.foldlM_cons] at hrun
    obtain ⟨g₁, he, hrest⟩ := Attempt.bind_eq_ok.1 hrun
    obtain ⟨hstep, hmatrix⟩ := hs.step_addStep hg he
    have hs₁ := hs.step (addStep of e)
    rw [hstep] at hs₁
    rw [List.map_cons, Store.after, hstep]
    cases rest with
    | nil => rw [Except.ok.inj hrest, List.map_nil, Store.after]
    | cons e' rest =>
      obtain ⟨c₁, hc₁, -⟩ := value?_eq_container.1 (Reading.matrix_eq_ok.1 hmatrix)
      rw [ih hs₁ hmatrix (List.cons_ne_nil _ _) hrest c₁ hc₁, hs.putMatrix_putMatrix hc]

/-! ### The laws -/

/-- What adding those entries of `h` to `g` that exceed a bound makes of a store. -/
structure ExceedingLaws (s : Store p) (of source : Name) (eps : Scalar p) (g h : Grid p) : Prop where
  /-- Other shapes are refused, and nothing changes. -/
  refused : g.shape ≠ h.shape → s.step (.act (.matrix (.edit of (.addExceeding source eps)))) =
    (.error (.refused (.shapeMismatch g.shape h.shape)), s)
  /-- An entry gets a term exactly where that exceeds the bound. Both are the entries from before. -/
  entries : g.shape = h.shape →
    ∃ g' t, s.step (.act (.matrix (.edit of (.addExceeding source eps)))) = (.ok .done, t) ∧
      t.reading.matrix of = .ok g' ∧ g'.shape = g.shape ∧ ∀ i j x y,
        g.read? i j = some x → h.read? i j = some y →
          g'.read? i j = some (if eps.lt y.magnitude then x + y else x)
  /-- No other variable changes or moves, the source among them. -/
  others : ∀ n, n ≠ of →
    (s.step (.act (.matrix (.edit of (.addExceeding source eps))))).2.find? n = s.find? n ∧
      (s.step (.act (.matrix (.edit of (.addExceeding source eps))))).2.reading.value? n =
        s.reading.value? n
  /-- Where no entry exceeds the bound, nothing is touched. -/
  untouched : g.shape = h.shape → (∀ i j, ¬h.Exceeds eps i j) →
    s.step (.act (.matrix (.edit of (.addExceeding source eps)))) = (.ok .done, s)
  /-- A matrix that is not alone on its cell leaves it exactly where an entry exceeds the bound. -/
  diverges : g.shape = h.shape → ∀ c n, s.find? of = some (.container .matrix c) → n ≠ of → s.On c n →
    ((∃ d, d ≠ c ∧ (s.step (.act (.matrix (.edit of (.addExceeding source eps))))).2.find? of =
      some (.container .matrix d)) ↔ ∃ i j, h.Exceeds eps i j)
  /-- One that is alone there stays. -/
  alone : ∀ c, s.find? of = some (.container .matrix c) → (∀ n, s.On c n → n = of) →
    (s.step (.act (.matrix (.edit of (.addExceeding source eps))))).2.find? of =
      some (.container .matrix c)
  /-- It comes to the same as adding the entries that exceed the bound one after the other, row by
  row. -/
  loop : g.shape = h.shape →
    (s.step (.act (.matrix (.edit of (.addExceeding source eps))))).2 =
      s.after ((h.exceeding eps).map (addStep of))

/-- With no entry that exceeds the bound, the step has nothing to do. -/
theorem step_addExceeding_of_none (hg : s.reading.matrix of = .ok g)
    (hh : s.reading.matrix source = .ok h) (hgh : g.shape = h.shape)
    (hnone : ∀ i j, ¬h.Exceeds eps i j) :
    s.step (.act (.matrix (.edit of (.addExceeding source eps)))) = (.ok .done, s) := by
  have hfound : h.anyExceeding eps = .ok false := by
    obtain ⟨found, hfound, hiff⟩ := h.exists_anyExceeding eps
    cases found with
    | false => exact hfound
    | true =>
      obtain ⟨i, j, hij⟩ := hiff.1 rfl
      exact absurd hij (hnone i j)
  have hplan : s.plan (.act (.matrix (.edit of (.addExceeding source eps)))) = .ok (.tell .done) := by
    show (MatrixStep.edit of (.addExceeding source eps)).plan s.reading = _
    simp [MatrixStep.plan, MatrixEdit.check, MatrixEdit.isNeeded, hg, hh, checkShape_eq_ok.2 hgh,
      hfound]
  exact step_of_ok hplan

/-- On grids of one shape the step succeeds. It puts the sum in place where an entry exceeds the
bound; otherwise the sum is what is there, and stays. -/
theorem Sound.step_addExceeding (hs : s.Sound) (hg : s.reading.matrix of = .ok g)
    (hh : s.reading.matrix source = .ok h) (hgh : g.shape = h.shape) {g' : Grid p}
    (hrun : g.addExceeding h eps = .ok g') :
    ∃ t, s.step (.act (.matrix (.edit of (.addExceeding source eps)))) = (.ok .done, t) ∧
      t.reading.matrix of = .ok g' ∧
      ((∃ i j, h.Exceeds eps i j) ∧ t = s.putMatrix of g' ∨ (∀ i j, ¬h.Exceeds eps i j) ∧ t = s) := by
  by_cases hany : ∃ i j, h.Exceeds eps i j
  · have hneeded : (MatrixEdit.addExceeding source eps).isNeeded s.reading = .ok true := by
      obtain ⟨found, hfound, hiff⟩ := h.exists_anyExceeding eps
      rw [MatrixEdit.isNeeded, hh, ← hiff.2 hany]
      exact hfound
    have hcheck : (MatrixEdit.addExceeding source eps).check s.reading g = .ok () := by
      rw [MatrixEdit.check, hh]
      exact checkShape_eq_ok.2 hgh
    have hmade : (MatrixEdit.addExceeding source eps).run (s.reading.own of) g = .ok g' := by
      rw [MatrixEdit.run, Reading.matrix_own hh]
      exact hrun
    obtain ⟨hstep, hmatrix⟩ := hs.step_edit_put hg hcheck hneeded hmade
    exact ⟨_, hstep, hmatrix, .inl ⟨hany, rfl⟩⟩
  · have hnone (i j : Nat) (hij : h.Exceeds eps i j) : False := hany ⟨i, j, hij⟩
    rw [Grid.addExceeding_eq, Grid.exceeding_eq_nil.2 hnone] at hrun
    obtain rfl : g = g' := Except.ok.inj hrun
    exact ⟨s, step_addExceeding_of_none hg hh hgh hnone, hg, .inr ⟨hnone, rfl⟩⟩

/-- Adding the entries that exceed a bound moves a matrix exactly where there are any. -/
theorem Reachable.exceedingLaws (hs : s.Reachable) (hg : s.reading.matrix of = .ok g)
    (hh : s.reading.matrix source = .ok h) (eps : Scalar p) : s.ExceedingLaws of source eps g h := by
  have hrefused (hdiffer : g.shape ≠ h.shape) :
      s.step (.act (.matrix (.edit of (.addExceeding source eps)))) =
        (.error (.refused (.shapeMismatch g.shape h.shape)), s) :=
    step_of_error (Step.Doomed.plan_eq (.matrixShapes (.addExceeding of eps) hg hh hdiffer))
  have hbinds (n : Name) (hn : n ≠ of) :
      n ∉ (Step.act (.matrix (.edit of (.addExceeding source eps))) : Step p).binds :=
    fun hmem => hn (List.mem_singleton.1 hmem)
  constructor
  case refused => exact hrefused
  case entries =>
    intro hgh
    obtain ⟨g', hrun, hshape, hentries⟩ := Grid.exists_addExceeding hgh eps
    obtain ⟨t, hstep, hmatrix, -⟩ := hs.sound.step_addExceeding hg hh hgh hrun
    exact ⟨g', t, hstep, hmatrix, hshape, hentries⟩
  case others =>
    exact fun n hn => ⟨(hs.sound.step_frame (hbinds n hn)).1, hs.sound.value?_step (hbinds n hn)⟩
  case untouched => exact step_addExceeding_of_none hg hh
  case diverges =>
    intro hgh c n hc hn hon
    obtain ⟨g', hrun, -⟩ := Grid.exists_addExceeding hgh eps
    obtain ⟨t, hstep, -, hcases⟩ := hs.sound.step_addExceeding hg hh hgh hrun
    rw [hstep]
    rcases hcases with ⟨hany, rfl⟩ | ⟨hnone, rfl⟩
    · exact iff_of_true (hs.sound.exists_find?_putMatrix hc hn hon) hany
    · refine iff_of_false ?_ fun ⟨i, j, hij⟩ => hnone i j hij
      rintro ⟨d, hne, hd⟩
      exact hne (Binding.container.inj (Option.some.inj (hd.symm.trans hc))).2
  case alone =>
    intro c hc halone
    by_cases hgh : g.shape = h.shape
    · obtain ⟨g', hrun, -⟩ := Grid.exists_addExceeding hgh eps
      obtain ⟨t, hstep, -, hcases⟩ := hs.sound.step_addExceeding hg hh hgh hrun
      rw [hstep]
      rcases hcases with ⟨-, rfl⟩ | ⟨-, rfl⟩
      · exact (hs.sound.find?_putMatrix_self hc).2 halone
      · exact hc
    · rw [hrefused hgh, hc]
  case loop =>
    intro hgh
    obtain ⟨g', hrun, -⟩ := Grid.exists_addExceeding hgh eps
    obtain ⟨t, hstep, -, hcases⟩ := hs.sound.step_addExceeding hg hh hgh hrun
    rw [hstep]
    rcases hcases with ⟨⟨i, j, hij⟩, rfl⟩ | ⟨hnone, rfl⟩
    · have hne : h.exceeding eps ≠ [] := fun hnil => Grid.exceeding_eq_nil.1 hnil i j hij
      rw [Grid.addExceeding_eq] at hrun
      exact (hs.sound.after_addSteps hg hne hrun).symm
    · rw [Grid.exceeding_eq_nil.2 hnone, List.map_nil, Store.after]

def unitAndZero : Grid .single := ⟨1, 2, #[.unit, .zero], rfl⟩

def clonedUnit : Store .single :=
  Store.after {} [.act (.matrix (.create unitAndZero "m")),
    .act (.sharing (.clone .matrix "m" "n"))]

/-- The clone leaves the cell when it gets what is not zero, and stays when the bound is a NaN. -/
theorem exceedingLaws_clonedUnit : clonedUnit.Reachable ∧ clonedUnit.strong 0 = 2 ∧
    (∃ g' t, clonedUnit.step (.act (.matrix (.edit "n" (.addExceeding "m" .zero)))) = (.ok .done, t) ∧
      t.reading.matrix "n" = .ok g' ∧ g'.read? 0 0 = some (.unit + .unit) ∧
      g'.read? 0 1 = some .zero ∧ t.reading.matrix "m" = .ok unitAndZero ∧
      ∃ d, d ≠ 0 ∧ t.find? "n" = some (.container .matrix d)) ∧
    clonedUnit.step (.act (.matrix (.edit "n" (.addExceeding "m" (.nan true))))) =
      (.ok .done, clonedUnit) := by
  have hreachable : clonedUnit.Reachable := Reachable.start.after _
  have hclone : clonedUnit.reading.matrix "n" = .ok unitAndZero := rfl
  have hmatrix : clonedUnit.reading.matrix "m" = .ok unitAndZero := rfl
  have hlaws := hreachable.exceedingLaws hclone hmatrix
  refine ⟨hreachable, by decide, ?_, ?_⟩
  · obtain ⟨g', t, hstep, hsum, -, hentries⟩ := (hlaws .zero).entries rfl
    have hsource := ((hlaws .zero).others "m" (by decide)).2
    have hmoved := ((hlaws .zero).diverges rfl 0 "m" rfl (by decide) rfl).2
      ⟨0, 0, .unit, rfl, by decide⟩
    rw [hstep] at hsource hmoved
    refine ⟨g', t, hstep, hsum, ?_, ?_, Reading.matrix_eq_ok.2 hsource, hmoved⟩
    · exact hentries 0 0 .unit .unit rfl rfl
    · exact hentries 0 1 .zero .zero rfl rfl
  · refine (hlaws (.nan true)).untouched rfl fun i j hij => ?_
    -- nothing is above a NaN
    obtain ⟨y, -, hlt⟩ := hij
    exact absurd (Scalar.lt_iff.1 hlt).1 (by decide)

/-! ### Bounds below zero -/

theorem Sound.step_axpy (hs : s.Sound) (hg : s.reading.matrix of = .ok g)
    (hh : s.reading.matrix source = .ok h) (hgh : g.shape = h.shape) {a : Scalar p} {g' : Grid p}
    (hrun : g.addScaled a h = .ok g') :
    s.step (.act (.matrix (.edit of (.axpy a source)))) = (.ok .done, s.putMatrix of g') ∧
      (s.putMatrix of g').reading.matrix of = .ok g' := by
  refine hs.step_edit_put hg ?_ rfl ?_
  · rw [MatrixEdit.check, hh]
    exact checkShape_eq_ok.2 hgh
  · rw [MatrixEdit.run, Reading.matrix_own hh]
    exact hrun

/-- How adding the entries of `h` that exceed a bound compares with adding all of them. -/
structure WholeSumLaws (s : Store p) (of source : Name) (eps : Scalar p) (g h : Grid p) : Prop where
  /-- Other shapes are refused alike. -/
  refused : g.shape ≠ h.shape → ∀ e ∈ [.addExceeding source eps, .axpy .unit source],
    s.step (.act (.matrix (.edit of e))) =
      (.error (.refused (.shapeMismatch g.shape h.shape)), s)
  /-- Otherwise both steps succeed, and differ in the NaNs among the terms. They leave the same
  entries, all NaNs taken as one, exactly where each NaN is added to a NaN. -/
  sums : g.shape = h.shape → ∃ a b t u,
    s.step (.act (.matrix (.edit of (.addExceeding source eps)))) = (.ok .done, t) ∧
      t.reading.matrix of = .ok a ∧
    s.step (.act (.matrix (.edit of (.axpy .unit source)))) = (.ok .done, u) ∧
      u.reading.matrix of = .ok b ∧
    g.DropsNaNs h a b ∧
    (a.Agrees b ↔ ∀ i j x y, g.read? i j = some x → h.read? i j = some y →
      y.isNaN = true → x.isNaN = true)

/-- A bound below zero excludes the NaNs among the terms and nothing else. -/
theorem Reachable.wholeSumLaws (hs : s.Reachable) (hg : s.reading.matrix of = .ok g)
    (hh : s.reading.matrix source = .ok h) (heps : eps.lt .zero = true) :
    s.WholeSumLaws of source eps g h := by
  constructor
  case refused =>
    intro hdiffer e he
    have hcombines : MatrixStep.Combines source (.edit of e : MatrixStep p) of := by
      rcases List.mem_pair.1 he with rfl | rfl
      · exact .addExceeding of eps
      · exact .axpy of .unit
    exact step_of_error (Step.Doomed.plan_eq (.matrixShapes hcombines hg hh hdiffer))
  case sums =>
    intro hgh
    obtain ⟨a, b, ha, hb, hdrops⟩ := Grid.exists_dropsNaNs hgh heps
    obtain ⟨t, hstepa, hmatrixa, -⟩ := hs.sound.step_addExceeding hg hh hgh ha
    obtain ⟨hstepb, hmatrixb⟩ := hs.sound.step_axpy hg hh hgh hb
    exact ⟨a, b, t, _, hstepa, hmatrixa, hstepb, hmatrixb, hdrops, hdrops.agrees_iff hgh⟩

/-- A matrix of a zero, and one of a NaN with a clone. -/
def zeroAndNaN : Store .single :=
  Store.after {} [.act (.matrix (.filled 1 1 .zero "m")),
    .act (.matrix (.filled 1 1 (.nan false) "n")), .act (.sharing (.clone .matrix "n" "k"))]

/-- A NaN may be added to a NaN either way. -/
theorem wholeSumLaws_zeroAndNaN : zeroAndNaN.Reachable ∧ (-.unit : Scalar .single).lt .zero = true ∧
    ∃ a b t u,
      zeroAndNaN.step (.act (.matrix (.edit "k" (.addExceeding "n" (-.unit))))) = (.ok .done, t) ∧
        t.reading.matrix "k" = .ok a ∧
      zeroAndNaN.step (.act (.matrix (.edit "k" (.axpy .unit "n")))) = (.ok .done, u) ∧
        u.reading.matrix "k" = .ok b ∧ a.Agrees b := by
  have hreachable : zeroAndNaN.Reachable := Reachable.start.after _
  have hbelow : (-.unit : Scalar .single).lt .zero = true := by decide
  have hclone : zeroAndNaN.reading.matrix "k" = .ok (.filled 1 1 (.nan false)) := rfl
  have hmatrix : zeroAndNaN.reading.matrix "n" = .ok (.filled 1 1 (.nan false)) := rfl
  have hlaws := hreachable.wholeSumLaws hclone hmatrix hbelow
  obtain ⟨a, b, t, u, hstepa, hmatrixa, hstepb, hmatrixb, -, hagrees⟩ := hlaws.sums rfl
  refine ⟨hreachable, hbelow, a, b, t, u, hstepa, hmatrixa, hstepb, hmatrixb, hagrees.2 ?_⟩
  intro i j x y hx hy hnan
  rwa [Option.some.inj (hx.symm.trans hy)]

/-- A NaN that is added to a zero is lost with a bound of minus one, and not when all is added. -/
theorem nan_term_lost : (-.unit : Scalar .single).lt .zero = true ∧
    let bounded := zeroAndNaN.step (.act (.matrix (.edit "m" (.addExceeding "n" (-.unit)))))
    let whole := zeroAndNaN.step (.act (.matrix (.edit "m" (.axpy .unit "n"))))
    bounded.1 = .ok .done ∧ bounded.2.reading.matrix "m" = .ok (.filled 1 1 .zero) ∧
      whole.1 = .ok .done ∧ whole.2.reading.matrix "m" = .ok (.filled 1 1 (.nan false)) ∧
      ¬(Grid.filled 1 1 .zero : Grid .single).Agrees (.filled 1 1 (.nan false)) := by
  refine ⟨by decide, rfl, rfl, rfl, by decide +kernel, fun hagrees => ?_⟩
  rcases hagrees.2 0 0 .zero (.nan false) rfl rfl with heq | hboth
  · exact absurd heq (by decide)
  · exact absurd hboth.1 (by decide)

end CowArrays.Store
