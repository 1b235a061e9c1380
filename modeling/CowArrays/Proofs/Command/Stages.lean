import CowArrays.Command.Run
import CowArrays.Proofs.Triplet.Filling

/-!
The stages of a run: the text is read, the triplets are collected, and the pattern is compressed.
What is collected is what filling a grid with the triplets makes, where all of them are inside, and
otherwise the first one that is not stops the run.
-/

namespace CowArrays.Command

variable {rows cols : Nat} {ts : List Triplet} {t : Triplet}

def AllInside (rows cols : Nat) (ts : List Triplet) : Prop := ∀ t ∈ ts, t.row < rows ∧ t.col < cols

/-- The first triplet of a list that is outside. -/
inductive FirstOutside (rows cols : Nat) : List Triplet → Triplet → Prop
  | intro {before rest : List Triplet} {t : Triplet} (inside : AllInside rows cols before)
      (outside : ¬(t.row < rows ∧ t.col < cols)) : FirstOutside rows cols (before ++ t :: rest) t

theorem FirstOutside.head (outside : ¬(t.row < rows ∧ t.col < cols)) (ts : List Triplet) :
    FirstOutside rows cols (t :: ts) t := by
  have inside : AllInside rows cols [] := nofun
  exact .intro inside outside

theorem FirstOutside.cons {u : Triplet} (hu : u.row < rows ∧ u.col < cols)
    (h : FirstOutside rows cols ts t) : FirstOutside rows cols (u :: ts) t := by
  obtain ⟨inside, outside⟩ := h
  have hboth : AllInside rows cols (u :: _) := List.forall_mem_cons.2 ⟨hu, inside⟩
  exact .intro hboth outside

theorem inside_or_firstOutside (rows cols : Nat) (ts : List Triplet) :
    AllInside rows cols ts ∨ ∃ t, FirstOutside rows cols ts t := by
  induction ts with
  | nil => exact .inl nofun
  | cons u ts ih =>
    by_cases hu : u.row < rows ∧ u.col < cols
    · rcases ih with hall | ⟨t, h⟩
      · exact .inl (List.forall_mem_cons.2 ⟨hu, hall⟩)
      · exact .inr ⟨t, h.cons hu⟩
    · exact .inr ⟨u, .head hu ts⟩

theorem FirstOutside.not_allInside (h : FirstOutside rows cols ts t) : ¬AllInside rows cols ts := by
  intro hall
  obtain ⟨-, outside⟩ := h
  exact outside (hall t (List.mem_append_right _ List.mem_cons_self))

/-! ### One triplet after the other -/

def collectFrom (rows cols : Nat) (c : Collected) (ts : List Triplet) : Except Stopped Collected :=
  ts.foldlM (fun c t =>
    if t.row < rows ∧ t.col < cols then
      match Triplet.accumulate c.matrix c.pattern t with
      | .ok (matrix, pattern) => .ok ⟨matrix, pattern⟩
      | .error failure => .error (.failed failure)
    else .error (.outside t.row t.col rows cols)) c

theorem collect_eq : collect rows cols ts =
    collectFrom rows cols ⟨.filled rows cols .zero, .empty rows⟩ ts := rfl

/-- Whether something collected has the sizes that it was started with. -/
structure Collected.HasSize (c : Collected) (rows cols : Nat) : Prop where
  shape : c.matrix.shape = (rows, cols)
  size : c.pattern.size = rows

theorem collectFrom_cons_of_inside {c : Collected} (h : c.HasSize rows cols)
    (ht : t.row < rows ∧ t.col < cols) (ts : List Triplet) :
    ∃ c', c'.HasSize rows cols ∧
      Triplet.accumulate c.matrix c.pattern t = .ok (c'.matrix, c'.pattern) ∧
      collectFrom rows cols c (t :: ts) = collectFrom rows cols c' ts := by
  obtain ⟨hrows, hcols⟩ : c.matrix.rows = rows ∧ c.matrix.cols = cols := Prod.mk.inj h.shape
  have ht' : t.row < c.matrix.rows ∧ t.col < c.matrix.cols := by rwa [hrows, hcols]
  obtain ⟨g, x, hacc, hfills⟩ := Triplet.accumulate_of_lt ht' (h.size.trans hrows.symm)
  refine ⟨⟨g, x⟩, ⟨hfills.shape.trans h.shape, hfills.size.trans h.size⟩, hacc, ?_⟩
  rw [collectFrom, List.foldlM_cons, if_pos ht, hacc]
  rfl

theorem collectFrom_cons_of_outside (c : Collected) (ht : ¬(t.row < rows ∧ t.col < cols))
    (ts : List Triplet) :
    collectFrom rows cols c (t :: ts) = .error (.outside t.row t.col rows cols) := by
  rw [collectFrom, List.foldlM_cons, if_neg ht]
  rfl

theorem collectFrom_of_inside {c : Collected} (h : c.HasSize rows cols)
    (hts : AllInside rows cols ts) :
    ∃ c', c'.HasSize rows cols ∧ collectFrom rows cols c ts = .ok c' ∧
      ts.foldlM (fun (u : Grid .double × Pattern) t => Triplet.accumulate u.1 u.2 t)
        (c.matrix, c.pattern) = .ok (c'.matrix, c'.pattern) := by
  induction ts generalizing c with
  | nil => exact ⟨c, h, rfl, rfl⟩
  | cons t ts ih =>
    obtain ⟨ht, hrest⟩ := List.forall_mem_cons.1 hts
    obtain ⟨c₁, h₁, hacc, hstep⟩ := collectFrom_cons_of_inside h ht ts
    obtain ⟨c', h', hcollect, hloop⟩ := ih h₁ hrest
    refine ⟨c', h', hstep.trans hcollect, ?_⟩
    rw [List.foldlM_cons, hacc]
    exact hloop

/-! ### All triplets -/

theorem hasSize_start (rows cols : Nat) :
    Collected.HasSize ⟨.filled rows cols .zero, .empty rows⟩ rows cols :=
  ⟨rfl, Pattern.size_empty rows⟩

/-- Where all triplets are inside, what is collected is what fills any grid of the shape. -/
theorem collect_of_inside (hts : AllInside rows cols ts) :
    ∃ c, collect rows cols ts = .ok c ∧ ∀ w : Grid .double, w.shape = (rows, cols) →
      Triplet.fill w ts = .ok (c.matrix, c.pattern) := by
  obtain ⟨c, -, hcollect, hloop⟩ := collectFrom_of_inside (hasSize_start rows cols) hts
  refine ⟨c, hcollect, fun w hw => ?_⟩
  obtain ⟨hrows, hcols⟩ : w.rows = rows ∧ w.cols = cols := Prod.mk.inj hw
  rw [Triplet.fill, w.clear_eq_filled, hrows, hcols]
  exact hloop

theorem collect_of_firstOutside (h : FirstOutside rows cols ts t) :
    collect rows cols ts = .error (.outside t.row t.col rows cols) := by
  obtain ⟨inside, outside⟩ := h
  obtain ⟨c, -, hbefore, -⟩ := collectFrom_of_inside (hasSize_start rows cols) inside
  rw [collect_eq, collectFrom, List.foldlM_append]
  show (collectFrom rows cols _ _ >>= _) = _
  rw [hbefore]
  exact collectFrom_cons_of_outside c outside _

/-! ### Runs on a text -/

/-- Whether a run works with so many rows and columns. -/
structure Options.HasSizes (o : Options) (ts : List Triplet) (rows cols : Nat) : Prop where
  rows : sizeFor o.rows (ts.map Triplet.row) = .ok rows
  cols : sizeFor o.cols (ts.map Triplet.col) = .ok cols

/-- The settings of the compression; any number of rows may be done in parallel. -/
def Options.settings (o : Options) : Settings := ⟨o.threshold.getD .zero, o.parallel, 1⟩

section Runs

variable {o : Options} {text : Octets} (schedule : Schedule)

theorem process_of_unread {failure : Failure} (h : Triplet.readAll text = .error failure) :
    process schedule o text = .error (.failed failure) := by
  rw [process, h]
  rfl

theorem process_of_unsized {stopped : Stopped} (h : Triplet.readAll text = .ok ts)
    (hsize : sizeFor o.rows (ts.map Triplet.row) = .error stopped ∨
      (∃ rows, sizeFor o.rows (ts.map Triplet.row) = .ok rows) ∧
        sizeFor o.cols (ts.map Triplet.col) = .error stopped) :
    process schedule o text = .error stopped := by
  rw [process, h]
  show (sizeFor o.rows _ >>= _) = _
  rcases hsize with hrows | ⟨⟨rows, hrows⟩, hcols⟩
  · rw [hrows]
    rfl
  · rw [hrows]
    show (sizeFor o.cols _ >>= _) = _
    rw [hcols]
    rfl

theorem process_of_sizes (h : Triplet.readAll text = .ok ts) (hsizes : o.HasSizes ts rows cols) :
    process schedule o text = do
      let c ← collect rows cols ts
      let after ← (o.settings.compress schedule c.pattern c.matrix).mapError .failed
      return ⟨rows, cols, c.pattern, after⟩ := by
  rw [process, h]
  show (sizeFor o.rows _ >>= _) = _
  rw [hsizes.rows]
  show (sizeFor o.cols _ >>= _) = _
  rw [hsizes.cols]
  rfl

theorem process_of_firstOutside (h : Triplet.readAll text = .ok ts)
    (hsizes : o.HasSizes ts rows cols) (hout : FirstOutside rows cols ts t) :
    process schedule o text = .error (.outside t.row t.col rows cols) := by
  rw [process_of_sizes schedule h hsizes, collect_of_firstOutside hout]
  rfl

/-- Behind the other stages it is for the compression to fail. -/
theorem process_of_inside (h : Triplet.readAll text = .ok ts) (hsizes : o.HasSizes ts rows cols)
    (hts : AllInside rows cols ts) :
    ∃ c : Collected, (∀ w : Grid .double, w.shape = (rows, cols) →
        Triplet.fill w ts = .ok (c.matrix, c.pattern)) ∧
      process schedule o text =
        match o.settings.compress schedule c.pattern c.matrix with
        | .ok after => .ok ⟨rows, cols, c.pattern, after⟩
        | .error failure => .error (.failed failure) := by
  obtain ⟨c, hcollect, hfill⟩ := collect_of_inside hts
  refine ⟨c, hfill, ?_⟩
  rw [process_of_sizes schedule h hsizes, hcollect]
  show ((o.settings.compress schedule c.pattern c.matrix).mapError _ >>= _) = _
  cases o.settings.compress schedule c.pattern c.matrix <;> rfl

end Runs

end CowArrays.Command
