import CowArrays.Proofs.Sharing.Accounting

/-!
Shapes along a run. Steps that change the entries of a matrix leave its shape, whatever they make of
the entries and whether they succeed or not, so a matrix has the same shape behind any number of
them.
-/

namespace CowArrays

variable {p : Precision}

/-- Whether a step may change the entries of a matrix, but does not put a matrix of another shape in
its place, and leaves a pattern alone. -/
inductive Step.Revises (matrix pattern : Name) : Step p → Prop
  | edit (e : MatrixEdit p) (keeps : e.KeepsShape) :
      Revises matrix pattern (.act (.matrix (.edit matrix e)))
  /-- The product goes to a vector. -/
  | multiply (walk : Walk) (x y : Name) :
      Revises matrix pattern (.act (.matrix (.multiply walk matrix x y)))
  | other {t : Step p} (hm : matrix ∉ t.binds) (hp : pattern ∉ t.binds) : Revises matrix pattern t

namespace Store

variable {s : Store p} {matrix pattern : Name} {g : Grid p} {x : Pattern}

/-- A step that binds neither of two names leaves the matrix and the pattern that they stand for. -/
theorem Sound.keeps_of_not_binds (hs : s.Sound) (hg : s.reading.matrix matrix = .ok g)
    (hx : s.reading.pattern pattern = .ok x) {t : Step p} (hm : matrix ∉ t.binds)
    (hp : pattern ∉ t.binds) :
    (s.step t).2.reading.matrix matrix = .ok g ∧ (s.step t).2.reading.pattern pattern = .ok x := by
  rw [Reading.matrix_eq_ok, Reading.pattern_eq_ok, hs.value?_step hm, hs.value?_step hp]
  exact ⟨Reading.matrix_eq_ok.1 hg, Reading.pattern_eq_ok.1 hx⟩

theorem plan_edit_run (hg : s.reading.matrix matrix = .ok g) {e : MatrixEdit p}
    (hcheck : e.check s.reading g = .ok ()) (hneeded : e.isNeeded s.reading = .ok true) :
    s.plan (.act (.matrix (.edit matrix e))) = .ok (.edit matrix fun r => do
      return .matrix (← e.run r (← r.matrix matrix))) := by
  show (MatrixStep.edit matrix e).plan s.reading = _
  simp only [MatrixStep.plan, hg, hcheck, hneeded, Attempt.ok_bind, if_true, Attempt.pure_eq_ok]

theorem Sound.step_edit_run (hs : s.Sound) (hg : s.reading.matrix matrix = .ok g)
    {e : MatrixEdit p} {g' : Grid p} (hcheck : e.check s.reading g = .ok ())
    (hneeded : e.isNeeded s.reading = .ok true)
    (hrun : e.run (s.reading.own matrix) g = .ok g') :
    ∃ t, s.step (.act (.matrix (.edit matrix e))) = (.ok .done, t) ∧
      t.reading.matrix matrix = .ok g' := by
  obtain ⟨t, hstep, hmatrix, -⟩ := hs.step_edit (e := ⟨.matrix g', none⟩)
    (plan_edit_run hg hcheck hneeded) (Reading.matrix_eq_ok.1 hg)
    (by simp [Reading.matrix_own hg, hrun, Except.map]) nofun
  exact ⟨t, hstep, Reading.matrix_eq_ok.2 hmatrix⟩

/-- An edit of a matrix that keeps shapes leaves one of the same shape. -/
theorem Sound.step_edit_matrix (hs : s.Sound) (hg : s.reading.matrix matrix = .ok g)
    {e : MatrixEdit p} (keeps : e.KeepsShape) :
    ∃ g', (s.step (.act (.matrix (.edit matrix e)))).2.reading.matrix matrix = .ok g' ∧
      g'.shape = g.shape := by
  cases hplan : s.plan (.act (.matrix (.edit matrix e))) with
  | error failure =>
    rw [step_of_error hplan]
    exact ⟨g, hg, rfl⟩
  | ok plan =>
    obtain ⟨g₀, hg₀, hrest⟩ := Attempt.bind_eq_ok.1 hplan
    obtain rfl := Except.ok.inj (hg₀.symm.trans hg)
    obtain ⟨hcheck, hrest⟩ := Attempt.seq_eq_ok.1 hrest
    obtain ⟨isNeeded, hneeded, hchange⟩ := Attempt.bind_eq_ok.1 hrest
    cases isNeeded with
    | false =>
      obtain rfl := Except.ok.inj hchange
      rw [hs.step_eq hplan]
      exact ⟨g₀, hg, rfl⟩
    | true =>
      obtain ⟨g', hrun, hshape⟩ := MatrixEdit.run_ok matrix hcheck
      obtain ⟨t, hstep, hmatrix⟩ := hs.step_edit_run hg hcheck hneeded hrun
      rw [hstep]
      exact ⟨g', hmatrix, hshape keeps⟩

/-- A product that succeeds goes to a vector, so neither to a matrix nor to a pattern. -/
theorem exists_vector_of_multiply {walk : Walk} {of x y : Name} {plan : Plan p}
    (h : s.plan (.act (.matrix (.multiply walk of x y))) = .ok plan) :
    ∃ v, s.reading.value? y = some (.container .vector (.vector v)) := by
  obtain ⟨g, -, hrest⟩ := Attempt.bind_eq_ok.1 h
  obtain ⟨v, -, hrest⟩ := Attempt.bind_eq_ok.1 hrest
  obtain ⟨w, hw, -⟩ := Attempt.bind_eq_ok.1 hrest
  exact ⟨w, Reading.vector_eq_ok.1 hw⟩

/-- A step that changes the entries of a matrix leaves its shape, and the pattern. -/
theorem Sound.step_revises (hs : s.Sound) (hg : s.reading.matrix matrix = .ok g)
    (hx : s.reading.pattern pattern = .ok x) {t : Step p} (ht : t.Revises matrix pattern) :
    ∃ g', (s.step t).2.reading.matrix matrix = .ok g' ∧ g'.shape = g.shape ∧
      (s.step t).2.reading.pattern pattern = .ok x := by
  have hmatrix := Reading.matrix_eq_ok.1 hg
  have hpattern := Reading.pattern_eq_ok.1 hx
  cases ht with
  | edit e keeps =>
    obtain ⟨g', hg', hshape⟩ := hs.step_edit_matrix hg keeps
    -- the pattern is no matrix, so its name is another one
    have hne : pattern ∉ (Step.act (.matrix (.edit matrix e)) : Step p).binds := by
      intro hmem
      obtain rfl := List.mem_singleton.1 hmem
      cases hmatrix.symm.trans hpattern
    refine ⟨g', hg', hshape, ?_⟩
    rw [Reading.pattern_eq_ok, hs.value?_step hne, hpattern]
  | multiply walk v y =>
    cases hplan : s.plan (.act (.matrix (.multiply walk matrix v y))) with
    | error failure =>
      rw [step_of_error hplan]
      exact ⟨g, hg, rfl, hx⟩
    | ok plan =>
      obtain ⟨w, hw⟩ := exists_vector_of_multiply hplan
      have hm : matrix ∉ (Step.act (.matrix (.multiply walk matrix v y)) : Step p).binds := by
        intro hmem
        obtain rfl := List.mem_singleton.1 hmem
        cases hmatrix.symm.trans hw
      have hp : pattern ∉ (Step.act (.matrix (.multiply walk matrix v y)) : Step p).binds := by
        intro hmem
        obtain rfl := List.mem_singleton.1 hmem
        cases hpattern.symm.trans hw
      obtain ⟨hg', hx'⟩ := hs.keeps_of_not_binds hg hx hm hp
      exact ⟨g, hg', rfl, hx'⟩
  | other hm hp =>
    obtain ⟨hg', hx'⟩ := hs.keeps_of_not_binds hg hx hm hp
    exact ⟨g, hg', rfl, hx'⟩

theorem Sound.after_revising (hs : s.Sound) (hg : s.reading.matrix matrix = .ok g)
    (hx : s.reading.pattern pattern = .ok x) {steps : List (Step p)}
    (hsteps : ∀ t ∈ steps, t.Revises matrix pattern) :
    ∃ g', (s.after steps).reading.matrix matrix = .ok g' ∧ g'.shape = g.shape ∧
      (s.after steps).reading.pattern pattern = .ok x := by
  induction steps generalizing s g with
  | nil => exact ⟨g, hg, rfl, hx⟩
  | cons t rest ih =>
    obtain ⟨ht, hrest⟩ := List.forall_mem_cons.1 hsteps
    obtain ⟨g₁, hg₁, hshape₁, hx₁⟩ := hs.step_revises hg hx ht
    obtain ⟨g', hg', hshape', hx'⟩ := ih (hs.step t) hg₁ hx₁ hrest
    exact ⟨g', hg', hshape'.trans hshape₁, hx'⟩

end Store
end CowArrays
