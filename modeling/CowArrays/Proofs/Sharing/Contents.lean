import CowArrays.Proofs.Sharing.Uniqueness

/-!
What the operations of a store leave in place. Only `Store.modifyContent` changes a content that is
there, and nothing changes a source; all other operations extend the store. Hence what a variable
stands for stays the same as long as its cell is not written.
-/

namespace CowArrays.Store

variable {p : Precision} {s t : Store p}

def content? (s : Store p) (c : CellId) : Option (Content p) := s.cells[c]?.map Cell.content

/-- The cells and sources of one store are all in another, with what they held. -/
structure Extends (s t : Store p) : Prop where
  content : ∀ c x, s.content? c = some x → t.content? c = some x
  source : ∀ (i : SourceId) (octets : Octets),
    s.sources[i]? = some octets → t.sources[i]? = some octets

theorem Extends.refl (s : Store p) : s.Extends s := ⟨fun _ _ h => h, fun _ _ h => h⟩

/-! ### Contents after each operation -/

theorem content?_modify (d : CellId) (f : Cell p → Cell p) (c : CellId) :
    ({ s with cells := s.cells.modify d f } : Store p).content? c =
      s.cells[c]?.map fun x => if d = c then (f x).content else x.content := by
  simp only [content?, Array.getElem?_modify]
  split <;> cases s.cells[c]? <;> rfl

@[simp] theorem content?_recount (f : Nat → Nat) (b : Binding p) (c : CellId) :
    (s.recount f b).content? c = s.content? c := by
  cases b with
  | container _ d => exact (content?_modify d _ c).trans (by simp [content?])
  | shared d => exact (content?_modify d _ c).trans (by simp [content?])
  | observer d => exact (content?_modify d _ c).trans (by simp [content?])
  | pattern _ => rfl
  | buffer _ => rfl

@[simp] theorem content?_unbind (name : Name) (c : CellId) :
    (s.unbind name).content? c = s.content? c := by
  unfold unbind
  cases s.find? name with
  | none => rfl
  | some b => exact content?_recount _ b c

@[simp] theorem content?_attach (name : Name) (b : Binding p) (c : CellId) :
    (s.attach name b).content? c = s.content? c :=
  content?_unbind name c

@[simp] theorem content?_bind (name : Name) (b : Binding p) (c : CellId) :
    (s.bind name b).content? c = s.content? c := by
  rw [bind, content?_attach, retain, content?_recount]

theorem content?_allocate (name : Name) (binding : CellId → Binding p) (x : Content p)
    (c : CellId) :
    (s.allocate name binding x).content? c =
      if c = s.cells.size then some x else s.content? c := by
  rw [allocate, content?_bind, content?, Array.getElem?_push]
  split <;> rfl

theorem content?_modifyContent {name : Name} {kind : Kind} {d : CellId}
    (hd : s.find? name = some (.container kind d)) (f : Content p → Content p) (c : CellId) :
    (s.modifyContent name f).content? c =
      if c = d then (s.content? c).map f else s.content? c := by
  have hm : s.modifyContent name f =
      { s with cells := s.cells.modify d fun x => { x with content := f x.content } } := by
    simp only [modifyContent, hd]
  rw [hm, content?_modify, content?]
  by_cases hc : c = d
  · simp [hc, Function.comp_def]
  · simp only [if_neg hc, if_neg (Ne.symm hc)]

theorem modifyContent_modifyContent (name : Name) (f f' : Content p → Content p) :
    (s.modifyContent name f).modifyContent name f' = s.modifyContent name (f' ∘ f) := by
  rcases container_or_not s name with ⟨kind, c, hc⟩ | hno
  · have hcells (xs : Array (Cell p)) :
        (xs.modify c fun x => { x with content := f x.content }).modify c
          (fun x => { x with content := f' x.content }) =
            xs.modify c fun x => { x with content := f' (f x.content) } := by
      refine Array.ext_getElem? fun k => ?_
      simp only [Array.getElem?_modify]
      split <;> simp [Function.comp_def]
    have hc' : (s.modifyContent name f).find? name = some (.container kind c) := by
      rw [find?_modifyContent, hc]
    rw [modifyContent, hc']
    simp only [modifyContent, hc, hcells, Function.comp_apply]
  · simp only [modifyContent_of_not_container hno]

theorem modifyContent_eq_self {name : Name} {f : Content p → Content p}
    (h : ∀ kind c, s.find? name = some (.container kind c) →
      ∀ x, s.content? c = some x → f x = x) :
    s.modifyContent name f = s := by
  rcases container_or_not s name with ⟨kind, c, hc⟩ | hno
  · have hcells : (s.cells.modify c fun x => { x with content := f x.content }) = s.cells := by
      refine Array.ext_getElem? fun k => ?_
      rw [Array.getElem?_modify]
      split
      · subst k
        cases hx : s.cells[c]? with
        | none => rfl
        | some x =>
          have hcontent : s.content? c = some x.content := by rw [content?, hx]; rfl
          rw [Option.map_some, h kind c hc _ hcontent]
      · rfl
    simp only [modifyContent, hc, hcells]
  · exact modifyContent_of_not_container hno f

/-! ### Sources and files -/

@[simp] theorem memory_recount (f : Nat → Nat) (b : Binding p) :
    (s.recount f b).sources = s.sources ∧ (s.recount f b).files = s.files := by
  cases b <;> exact ⟨rfl, rfl⟩

@[simp] theorem memory_unbind (name : Name) :
    (s.unbind name).sources = s.sources ∧ (s.unbind name).files = s.files := by
  unfold unbind
  cases s.find? name with
  | none => exact ⟨rfl, rfl⟩
  | some b => exact memory_recount _ b

@[simp] theorem memory_attach (name : Name) (b : Binding p) :
    (s.attach name b).sources = s.sources ∧ (s.attach name b).files = s.files :=
  memory_unbind name

@[simp] theorem memory_bind (name : Name) (b : Binding p) :
    (s.bind name b).sources = s.sources ∧ (s.bind name b).files = s.files := by
  simp [bind, retain]

@[simp] theorem memory_allocate (name : Name) (binding : CellId → Binding p) (x : Content p) :
    (s.allocate name binding x).sources = s.sources ∧
      (s.allocate name binding x).files = s.files := by
  simp [allocate]

@[simp] theorem memory_modifyContent (name : Name) (f : Content p → Content p) :
    (s.modifyContent name f).sources = s.sources ∧ (s.modifyContent name f).files = s.files := by
  unfold modifyContent
  split <;> exact ⟨rfl, rfl⟩

/-! ### Extension -/

theorem lt_of_content? {c : CellId} {x : Content p} (h : s.content? c = some x) :
    c < s.cells.size := by
  obtain ⟨y, hy, -⟩ := Option.map_eq_some_iff.1 h
  exact (Array.getElem?_eq_some_iff.1 hy).1

theorem content?_of_lt {c : CellId} (h : c < s.cells.size) : ∃ x, s.content? c = some x :=
  ⟨_, by rw [content?, Array.getElem?_eq_getElem h]; rfl⟩

theorem extends_unbind (name : Name) : s.Extends (s.unbind name) :=
  ⟨fun c x h => by rwa [content?_unbind], fun i o h => by rwa [(memory_unbind name).1]⟩

theorem extends_bind (name : Name) (b : Binding p) : s.Extends (s.bind name b) :=
  ⟨fun c x h => by rwa [content?_bind], fun i o h => by rwa [(memory_bind name b).1]⟩

theorem extends_rename (name target : Name) : s.Extends (s.rename name target) := by
  unfold rename
  cases s.find? name with
  | none => exact .refl s
  | some b => exact ⟨fun c x h => by simpa [retain] using h, fun i o h => by simpa [retain] using h⟩

theorem extends_allocate (name : Name) (binding : CellId → Binding p) (x : Content p) :
    s.Extends (s.allocate name binding x) := by
  refine ⟨fun c y h => ?_, fun i o h => by rwa [(memory_allocate name binding x).1]⟩
  have hc := lt_of_content? h
  rwa [content?_allocate, if_neg (Nat.ne_of_lt hc)]

theorem extends_addSource (octets : Octets) : s.Extends (s.addSource octets).2 := by
  refine ⟨fun c x h => h, fun i o h => ?_⟩
  have hi : i < s.sources.size := (Array.getElem?_eq_some_iff.1 h).1
  exact (Array.getElem?_push_lt hi).trans ((Array.getElem?_eq_getElem hi).symm.trans h)

end CowArrays.Store
