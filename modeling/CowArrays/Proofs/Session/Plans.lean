import CowArrays.Proofs.Sharing.Plain
import CowArrays.Proofs.Storage.Sums
import CowArrays.Proofs.Triplet.Filling

/-!
Plans that cannot go wrong. A step checks what it has to before it plans any change, so an edit that
was planned succeeds; and the changes of a plan bind no names but those that the step speaks of.
-/

namespace CowArrays

variable {p : Precision}

/-! ### Reading behind an own cell -/

namespace Reading

variable {r : Reading p}

theorem value?_own_of_ne {name n : Name} (hn : n ≠ name) : (r.own name).value? n = r.value? n :=
  if_neg hn

/-- Only a mapped vector reads otherwise: it is no view any more. -/
theorem value?_own {name : Name} {kind : Kind} {x : Payload p}
    (h : r.value? name = some (.container kind x)) :
    (r.own name).value? name = some (.container kind x.owned) := by
  simp [own, h]

theorem get_eq_ok {α : Type} {name : Name} {form : Value p → Option α} {x : α} {value : Value p}
    (h : ∀ v, form v = some x ↔ v = value) :
    r.get name form = .ok x ↔ r.value? name = some value := by
  have hform : (r.value? name).bind form = some x ↔ r.value? name = some value := by
    simp [Option.bind_eq_some_iff, h]
  rw [← hform, get]
  cases (r.value? name).bind form <;> simp

theorem container_eq_ok {kind : Kind} {name : Name} {x : Payload p} :
    r.container kind name = .ok x ↔ r.value? name = some (.container kind x) :=
  get_eq_ok fun v => by cases v <;> simp

theorem vector_eq_ok {name : Name} {v : Line p} :
    r.vector name = .ok v ↔ r.value? name = some (.container .vector (.vector v)) :=
  get_eq_ok fun v => by split <;> simp_all

theorem mapped_eq_ok {name : Name} {v : Line p} {isView : Bool} :
    r.mapped name = .ok (v, isView) ↔
      r.value? name = some (.container .mapped (.mapped v isView)) :=
  get_eq_ok fun v => by split <;> grind

theorem matrix_eq_ok {name : Name} {g : Grid p} :
    r.matrix name = .ok g ↔ r.value? name = some (.container .matrix (.matrix g)) :=
  get_eq_ok fun v => by split <;> simp_all

theorem pattern_eq_ok {name : Name} {x : Pattern} :
    r.pattern name = .ok x ↔ r.value? name = some (.pattern x) :=
  get_eq_ok fun v => by split <;> simp_all

theorem shared_eq_ok {name : Name} {x : Payload p} :
    r.shared name = .ok x ↔ r.value? name = some (.shared x) :=
  get_eq_ok fun v => by split <;> simp_all

theorem buffer_eq_ok {name : Name} {v : Line p} :
    r.buffer name = .ok v ↔ r.value? name = some (.buffer v) :=
  get_eq_ok fun v => by split <;> simp_all

theorem file_eq_ok {name : Name} {octets : Octets} :
    r.file name = .ok octets ↔ r.file? name = some octets := by
  unfold file
  split <;> simp_all

theorem container_own (name : Name) {n : Name} {kind : Kind} {x : Payload p}
    (h : r.value? n = some (.container kind x)) :
    (r.own name).value? n = some (.container kind (if n = name then x.owned else x)) := by
  by_cases hn : n = name
  · rw [if_pos hn, hn]
    exact value?_own (hn ▸ h)
  · rw [value?_own_of_ne hn, if_neg hn, h]

theorem own_container {name : Name} {kind : Kind} {x : Payload p}
    (h : r.container kind name = .ok x) : (r.own name).container kind name = .ok x.owned :=
  container_eq_ok.2 (value?_own (container_eq_ok.1 h))

theorem vector_own {name n : Name} {v : Line p} (h : r.vector n = .ok v) :
    (r.own name).vector n = .ok v := by
  rw [vector_eq_ok] at h ⊢
  rw [container_own name h]
  split <;> rfl

theorem matrix_own {name n : Name} {g : Grid p} (h : r.matrix n = .ok g) :
    (r.own name).matrix n = .ok g := by
  rw [matrix_eq_ok] at h ⊢
  rw [container_own name h]
  split <;> rfl

end Reading

namespace VectorKind

variable {r : Reading p} {k : VectorKind}

theorem read_eq_ok {name : Name} {v : Line p} {isView : Bool} (h : k.read r name = .ok (v, isView)) :
    ∃ x, r.value? name = some (.container k.kind x) ∧ x.owned = k.payload v := by
  cases k with
  | dense =>
    obtain ⟨w, hw, hwv⟩ := Attempt.map_eq_ok.1 h
    obtain ⟨rfl, -⟩ := Prod.ext_iff.1 hwv
    exact ⟨_, Reading.vector_eq_ok.1 hw, rfl⟩
  | mapped => exact ⟨_, Reading.mapped_eq_ok.1 h, rfl⟩

theorem read_own (name : Name) {n : Name} {v : Line p} {isView : Bool}
    (h : k.read r n = .ok (v, isView)) :
    ∃ isView', k.read (r.own name) n = .ok (v, isView') := by
  cases k with
  | dense =>
    obtain ⟨w, hw, hwv⟩ := Attempt.map_eq_ok.1 h
    obtain ⟨rfl, -⟩ := Prod.ext_iff.1 hwv
    exact ⟨false, by rw [read, Reading.vector_own hw]; rfl⟩
  | mapped =>
    have hown := Reading.container_own name (Reading.mapped_eq_ok.1 h)
    refine ⟨if n = name then false else isView, ?_⟩
    refine Reading.mapped_eq_ok.2 (hown.trans ?_)
    split <;> rfl

theorem readOwn_own {name : Name} {v : Line p} {isView : Bool}
    (h : k.read r name = .ok (v, isView)) : k.readOwn (r.own name) name = .ok v := by
  obtain ⟨x, hx, hpayload⟩ := read_eq_ok h
  have hown := Reading.value?_own hx
  rw [hpayload] at hown
  cases k with
  | dense => simp [readOwn, read, Reading.vector_eq_ok.2 hown, Except.map]
  | mapped => simp [readOwn, read, Reading.mapped_eq_ok.2 hown]

theorem addScaled_ok {v w : Line p} (h : v.size = w.size) (a : Scalar p) :
    ∃ u, k.addScaled v a w = .ok u := by
  cases k with
  | dense => exact (Line.addScaled_of_size h a).imp fun _ => And.left
  | mapped => exact (Mapped.addScaled_of_size h a).imp fun _ => And.left

end VectorKind

/-! ### Edits behind their checks -/

/-- What a handle writes to is no mapped vector, so it is written alike in a cell of its own. -/
theorem Rewrite.run_owned {w : Rewrite p} {name : Name} {x y : Payload p}
    (h : w.run name x = .ok y) : w.run name x.owned = .ok y := by
  cases x with
  | mapped v isView => cases w <;> cases h
  | vector v | matrix g | list v => exact h

theorem VectorEdit.run_ok {e : VectorEdit p} {k : VectorKind} {r : Reading p} {v : Line p}
    (name : Name) (h : e.check k r v = .ok ()) : ∃ u, e.run k (r.own name) v = .ok u := by
  cases e with
  | set i x => exact (Line.put_of_lt (Line.checkRange_eq_ok.1 h) x).imp fun _ => And.left
  | add i x => exact (Line.add_of_lt (Line.checkRange_eq_ok.1 h) x).imp fun _ => And.left
  | scale a => exact ⟨_, rfl⟩
  | write f => exact ⟨_, rfl⟩
  | axpy a other =>
    obtain ⟨⟨w, isView⟩, hw, hshape⟩ := Attempt.bind_eq_ok.1 h
    obtain ⟨isView', hown⟩ := VectorKind.read_own name hw
    obtain ⟨u, hu⟩ := k.addScaled_ok (Line.shape_inj.1 (checkShape_eq_ok.1 hshape)) a
    exact ⟨u, by rw [run, hown]; exact hu⟩

/-- Whether an edit leaves the shape of a grid. What a caller writes need not. -/
def MatrixEdit.KeepsShape : MatrixEdit p → Prop
  | write f => ∀ g, (f g).shape = g.shape
  | _ => True

/-- A change of the entries of a grid succeeds behind its check, and leaves the shape. -/
theorem MatrixEdit.run_ok {e : MatrixEdit p} {r : Reading p} {g : Grid p} (name : Name)
    (h : e.check r g = .ok ()) :
    ∃ g', e.run (r.own name) g = .ok g' ∧ (e.KeepsShape → g'.shape = g.shape) := by
  have always {result : Attempt (Grid p)} (hresult : ∃ g', result = .ok g' ∧ g'.shape = g.shape) :
      ∃ g', result = .ok g' ∧ (e.KeepsShape → g'.shape = g.shape) :=
    hresult.imp fun _ h => ⟨h.1, fun _ => h.2⟩
  cases e with
  | set i j x => exact always (Grid.put_ok (Grid.checkRange_eq_ok.1 h) x)
  | add i j x => exact always (Grid.bump_ok (Grid.checkRange_eq_ok.1 h) x)
  | scale a => exact ⟨_, rfl, fun _ => rfl⟩
  | write f => exact ⟨_, rfl, fun keeps => keeps g⟩
  | axpy a other =>
    obtain ⟨w, hw, hshape⟩ := Attempt.bind_eq_ok.1 h
    rw [run, Reading.matrix_own hw]
    exact always (Grid.ok_of_exists (Grid.exists_addScaled (checkShape_eq_ok.1 hshape) a))
  | clear => exact always g.clear_ok
  | clearRow i => exact always (Grid.ok_of_exists (Grid.exists_clearRow (checkIndex_eq_ok.1 h)))
  | clearCol j => exact always (Grid.ok_of_exists (Grid.exists_clearCol (checkIndex_eq_ok.1 h)))
  | unitRow i =>
    obtain ⟨hr, hc⟩ := Attempt.seq_eq_ok.1 h
    exact always (Grid.ok_of_exists
      (Grid.exists_unitRow (checkIndex_eq_ok.1 hr) (checkIndex_eq_ok.1 hc)))
  | unitCol j =>
    obtain ⟨hc, hr⟩ := Attempt.seq_eq_ok.1 h
    exact always (Grid.ok_of_exists
      (Grid.exists_unitCol (checkIndex_eq_ok.1 hc) (checkIndex_eq_ok.1 hr)))
  | addExceeding source eps =>
    obtain ⟨w, hw, hshape⟩ := Attempt.bind_eq_ok.1 h
    rw [run, Reading.matrix_own hw]
    exact always (Grid.ok_of_exists (Grid.exists_addExceeding (checkShape_eq_ok.1 hshape) eps))

end CowArrays
