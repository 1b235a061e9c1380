import CowArrays.Sharing.Change
import Mathlib.Tactic.ByContra

/-!
What the names of a store are bound to after each of its operations. Only the names that an
operation speaks of change, and each name is bound once at most.
-/

namespace CowArrays

theorem lookup_filter_ne {α : Type} (xs : List (Name × α)) (name n : Name) :
    (xs.filter (·.1 != name)).lookup n = if n = name then none else xs.lookup n := by
  induction xs with
  | nil => simp
  | cons x xs ih =>
    by_cases hx : x.1 = name
    · by_cases hn : n = name <;> grind
    · by_cases hn : n = name <;> grind

theorem lookup_eq_none_of_not_mem {α : Type} {xs : List (Name × α)} {name : Name}
    (h : name ∉ xs.map Prod.fst) : xs.lookup name = none := by
  rw [List.lookup_eq_none_iff]
  intro x hx
  have hne : name ≠ x.1 := fun heq => h (heq ▸ List.mem_map_of_mem hx)
  simpa using hne

theorem mem_iff_lookup {α : Type} {xs : List (Name × α)} (h : (xs.map Prod.fst).Nodup) {name : Name}
    {a : α} : (name, a) ∈ xs ↔ xs.lookup name = some a := by
  induction xs with
  | nil => simp
  | cons x xs ih =>
    obtain ⟨hx, hxs⟩ := List.nodup_cons.1 h
    rw [List.mem_cons, List.lookup_cons, ih hxs]
    by_cases hn : name = x.1
    · have hnone := lookup_eq_none_of_not_mem hx
      grind
    · grind

namespace Store

variable {p : Precision} {s : Store p}

@[simp] theorem bindings_recount (f : Nat → Nat) (b : Binding p) :
    (s.recount f b).bindings = s.bindings := by
  cases b <;> rfl

@[simp] theorem bindings_unbind (name : Name) :
    (s.unbind name).bindings = s.bindings.filter (·.1 != name) := by
  unfold unbind
  cases s.find? name <;> simp [release]

@[simp] theorem bindings_modifyContent (name : Name) (f : Content p → Content p) :
    (s.modifyContent name f).bindings = s.bindings := by
  unfold modifyContent
  split <;> rfl

theorem container_or_not (s : Store p) (name : Name) :
    (∃ kind c, s.find? name = some (.container kind c)) ∨
      ∀ kind c, s.find? name ≠ some (.container kind c) := by
  by_cases h : ∃ kind c, s.find? name = some (.container kind c)
  · exact .inl h
  · exact .inr fun kind c hc => h ⟨kind, c, hc⟩

theorem modifyContent_of_not_container {name : Name}
    (h : ∀ kind c, s.find? name ≠ some (.container kind c)) (f : Content p → Content p) :
    s.modifyContent name f = s := by
  unfold modifyContent
  split
  · rename_i kind c hc
    exact absurd hc (h kind c)
  · rfl

theorem find?_unbind (name n : Name) :
    (s.unbind name).find? n = if n = name then none else s.find? n := by
  simp [find?, lookup_filter_ne]

theorem find?_attach (name n : Name) (b : Binding p) :
    (s.attach name b).find? n = if n = name then some b else s.find? n := by
  have h := find?_unbind (s := s) name n
  by_cases hn : n = name
  · simp [attach, find?, hn]
  · rw [if_neg hn] at h ⊢
    rw [← h, find?, attach, List.lookup_cons, beq_false_of_ne hn]
    rfl

theorem find?_bind (name n : Name) (b : Binding p) :
    (s.bind name b).find? n = if n = name then some b else s.find? n := by
  rw [bind, find?_attach]
  simp [retain, find?]

theorem find?_allocate (name n : Name) (binding : CellId → Binding p) (x : Content p) :
    (s.allocate name binding x).find? n =
      if n = name then some (binding s.cells.size) else s.find? n := by
  rw [allocate, find?_bind]
  rfl

theorem find?_rename {name : Name} {b : Binding p} (h : s.find? name = some b) (target n : Name) :
    (s.rename name target).find? n =
      if n = target then some b else if n = name then none else s.find? n := by
  simp only [rename, h, find?_attach, find?_unbind]
  simp [retain, find?]

@[simp] theorem find?_modifyContent (name n : Name) (f : Content p → Content p) :
    (s.modifyContent name f).find? n = s.find? n := by
  simp [find?]

/-- A container stays on a cell that is unique, or takes its content to a fresh cell. -/
theorem makeUnique_cases (s : Store p) (name : Name) :
    s.makeUnique name = s ∨ ∃ kind c x, s.find? name = some (.container kind c) ∧
      s.cells[c]? = some x ∧ s.makeUnique name = s.allocate name (.container kind) x.content := by
  unfold makeUnique
  split
  · rename_i kind c hc
    split
    · exact .inl rfl
    · cases hx : s.cells[c]? with
      | none => exact .inl rfl
      | some x => exact .inr ⟨kind, c, x, hc, hx, rfl⟩
  · exact .inl rfl

theorem resolve_cases {origin : Origin} {source : SourceId} {t : Store p}
    (h : s.resolve origin = some (source, t)) :
    t = s ∨ ∃ octets, t = (s.addSource octets).2 := by
  cases origin with
  | buffer name =>
    rw [resolve] at h
    split at h
    · exact .inl (congrArg Prod.snd (Option.some.inj h)).symm
    · cases h
  | file name =>
    obtain ⟨_, -, hst⟩ := Option.map_eq_some_iff.1 h
    exact .inl (congrArg Prod.snd hst).symm
  | octets octets => exact .inr ⟨octets, (congrArg Prod.snd (Option.some.inj h)).symm⟩

/-! ### Each name once -/

def Distinct (s : Store p) : Prop := (s.bindings.map Prod.fst).Nodup

theorem mem_iff_find? (h : s.Distinct) {name : Name} {b : Binding p} :
    (name, b) ∈ s.bindings ↔ s.find? name = some b :=
  mem_iff_lookup h

theorem distinct_filter (h : s.Distinct) (q : Name × Binding p → Bool) :
    ((s.bindings.filter q).map Prod.fst).Nodup :=
  h.sublist (List.filter_sublist.map _)

theorem distinct_recount (h : s.Distinct) (f : Nat → Nat) (b : Binding p) :
    (s.recount f b).Distinct := by
  simpa [Distinct] using h

theorem distinct_unbind (h : s.Distinct) (name : Name) : (s.unbind name).Distinct := by
  simpa [Distinct] using distinct_filter h _

theorem distinct_attach (h : s.Distinct) (name : Name) (b : Binding p) :
    (s.attach name b).Distinct := by
  have hu := distinct_unbind h name
  have hnew : name ∉ (s.unbind name).bindings.map Prod.fst := by simp
  exact List.nodup_cons.2 ⟨hnew, hu⟩

end Store
end CowArrays
