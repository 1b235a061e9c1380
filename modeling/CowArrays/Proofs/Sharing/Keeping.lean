import CowArrays.Proofs.Sharing.Accounting

/-!
What every step keeps: the octets of every source, and the content of every cell that a variable is
on which the step does not bind, or which is no container. Changes that are no edits extend a store;
an edit writes one cell, and only when nobody else is on it.
-/

namespace CowArrays.Store

variable {p : Precision} {s t u : Store p}

theorem Extends.trans (h : s.Extends t) (h' : t.Extends u) : s.Extends u :=
  ⟨fun c x hx => h'.content c x (h.content c x hx), fun i o ho => h'.source i o (h.source i o ho)⟩

/-! ### Changes that are no edits -/

theorem extends_derive (name source : Name) (f : Binding p → Option (Binding p)) :
    s.Extends (s.derive name source f) := by
  unfold derive
  split
  · exact extends_bind name _
  · exact .refl s

theorem extends_resolve {origin : Origin} {source : SourceId}
    (h : s.resolve origin = some (source, t)) : s.Extends t := by
  rcases resolve_cases h with rfl | ⟨octets, rfl⟩
  · exact .refl _
  · exact extends_addSource octets

theorem extends_apply {change : Change p} (h : ∀ name run, change ≠ .edit name run) :
    s.Extends (s.apply change).2 := by
  cases change with
  | create kind name x => exact extends_allocate name _ _
  | createShared name x => exact extends_allocate name _ _
  | view name origin offset count =>
    rw [apply]
    cases hr : s.resolve origin with
    | none => exact .refl s
    | some x => exact (extends_resolve hr).trans (extends_allocate name _ _)
  | join kind name source => exact extends_derive name source _
  | hold name source | observe name source => exact extends_derive name source _
  | edit name run => exact absurd rfl (h name run)
  | setPattern name pattern => exact extends_bind name _
  | lend name octets => exact (extends_addSource octets).trans (extends_bind name _)
  | putFile name octets =>
    have hadd := extends_addSource (s := s) octets
    exact ⟨hadd.content, hadd.source⟩
  | drop name => exact extends_unbind name
  | rename name target => exact extends_rename name target

/-! ### Edits -/

theorem sources_makeUnique (name : Name) : (s.makeUnique name).sources = s.sources := by
  rcases makeUnique_cases s name with heq | ⟨kind, c, x, -, -, heq⟩
  · rw [heq]
  · rw [heq]
    exact (memory_allocate name (.container kind) x.content).1

theorem sources_makeOwn (name : Name) : (s.makeOwn name).sources = s.sources :=
  (memory_modifyContent name _).1.trans (sources_makeUnique name)

theorem sources_settle (name : Name) (e : Edited p) : (s.settle name e).sources = s.sources := by
  have hput := (memory_modifyContent (s := s) name fun _ => .ofPayload e.payload).1
  unfold settle
  cases e.pattern with
  | none => exact hput
  | some y => exact (memory_bind y.1 (.pattern y.2)).1.trans hput

theorem sources_edit (name : Name) (run : Reading p → Attempt (Edited p)) :
    (s.edit name run).2.sources = s.sources := by
  cases hr : run (s.makeOwn name).reading with
  | error failure =>
    rw [edit_of_error hr]
    exact sources_makeOwn name
  | ok e =>
    rw [edit_of_ok hr]
    exact (sources_settle name e).trans (sources_makeOwn name)

/-- Writing to a container that is alone on its cell leaves the cells of all others alone. -/
theorem Sound.content?_modifyContent_of_ne (hs : s.Sound) {name m : Name} (hm : m ≠ name)
    (hu : ∀ kind d, s.find? name = some (.container kind d) → s.isUnique d = true) {c : CellId}
    (hc : s.On c m) (f : Content p → Content p) :
    (s.modifyContent name f).content? c = s.content? c := by
  rcases container_or_not s name with ⟨kind, d, hd⟩ | hno
  · have hcd : c ≠ d := by
      rintro rfl
      exact hm ((hs.accounted.isUnique_iff hd).1 (hu kind c hd) m hc)
    rw [content?_modifyContent hd, if_neg hcd]
  · rw [modifyContent_of_not_container hno]

theorem extends_makeUnique (name : Name) : s.Extends (s.makeUnique name) := by
  rcases makeUnique_cases s name with heq | ⟨kind, c, x, -, -, heq⟩
  · rw [heq]
    exact .refl s
  · rw [heq]
    exact extends_allocate name (.container kind) x.content

theorem Sound.content?_makeOwn_of_ne (hs : s.Sound) {name m : Name} (hm : m ≠ name) {c : CellId}
    (hc : s.On c m) {x : Content p} (hx : s.content? c = some x) :
    (s.makeOwn name).content? c = some x := by
  have hc' : (s.makeUnique name).On c m := by
    rw [On, find?_makeUnique_of_ne hm]
    exact hc
  have hu (kind : Kind) (d : CellId)
      (hd : (s.makeUnique name).find? name = some (.container kind d)) :
      (s.makeUnique name).isUnique d = true := by
    have hown : (s.makeOwn name).find? name = some (.container kind d) := by
      rw [Store.makeOwn, find?_modifyContent, hd]
    simpa [Store.makeOwn] using hs.isUnique_of_makeOwn hown
  rw [Store.makeOwn, (hs.makeUnique name).content?_modifyContent_of_ne hm hu hc']
  exact (extends_makeUnique name).content c x hx

theorem Sound.content?_edit_of_ne (hs : s.Sound) {name m : Name} (hm : m ≠ name) {c : CellId}
    (hc : s.On c m) {x : Content p} (hx : s.content? c = some x) (e : Edited p) :
    ((s.makeOwn name).settle name e).content? c = some x := by
  have hc' : (s.makeOwn name).On c m := by
    rw [On, find?_makeOwn_of_ne hm]
    exact hc
  have hput : ((s.makeOwn name).modifyContent name fun _ => .ofPayload e.payload).content? c =
      some x := by
    rw [(hs.makeOwn name).content?_modifyContent_of_ne hm (fun _ d => hs.isUnique_of_makeOwn) hc',
      hs.content?_makeOwn_of_ne hm hc hx]
  unfold settle
  cases e.pattern with
  | none => exact hput
  | some y => exact (content?_bind y.1 _ c).trans hput

/-! ### Steps -/

theorem source_apply (change : Change p) {i : SourceId} {octets : Octets}
    (h : s.sources[i]? = some octets) : (s.apply change).2.sources[i]? = some octets := by
  by_cases he : ∃ name run, change = .edit name run
  · obtain ⟨name, run, rfl⟩ := he
    show (s.edit name run).2.sources[i]? = some octets
    rwa [sources_edit]
  · exact (extends_apply fun name run heq => he ⟨name, run, heq⟩).source i octets h

theorem source_applyAll {changes : List (Change p)} {i : SourceId} {octets : Octets}
    (h : s.sources[i]? = some octets) : (s.applyAll changes).2.sources[i]? = some octets := by
  induction changes generalizing s with
  | nil => exact h
  | cons change rest ih =>
    have hc := source_apply change h
    rcases hs : s.apply change with ⟨failure | _, t⟩
    · simpa [applyAll, hs] using hc
    · simpa [applyAll, hs] using ih (s := t) (by simpa [hs] using hc)

theorem source_step (t : Step p) {i : SourceId} {octets : Octets}
    (h : s.sources[i]? = some octets) : (s.step t).2.sources[i]? = some octets := by
  cases hplan : s.plan t with
  | error failure => rwa [step_of_error hplan]
  | ok plan =>
    rw [step_of_ok hplan]
    exact source_applyAll h

/-- Changes that are sure to go through keep what is on the cell of a variable, unless it is a
container that they bind. -/
theorem Sound.content?_applyAll (hs : s.Sound) {names : List Name} {changes : List (Change p)}
    (h : Sure s.reading names changes) {m : Name} {c : CellId}
    (hm : ∀ kind d, s.find? m = some (.container kind d) → m ∉ names) (hc : s.On c m) {x : Content p}
    (hx : s.content? c = some x) : (s.applyAll changes).2.content? c = some x := by
  cases h with
  | @edit name run kind y e found succeeds mem pattern_mem =>
    have hne : m ≠ name := by
      rintro rfl
      obtain ⟨d, hd, -⟩ := value?_eq_container.1 found
      exact hm kind d hd mem
    obtain ⟨hedit, -, -⟩ := hs.edit_plain succeeds
    simp only [Store.applyAll, Store.apply, hedit]
    exact hs.content?_edit_of_ne hne hc hx e
  | quiet quiet =>
    -- only the content has to go through the induction, as names may be bound anew on the way
    clear hc hm
    induction changes generalizing s with
    | nil => exact hx
    | cons change rest ih =>
      have hq := quiet change List.mem_cons_self
      have hsplit : s.apply change = (.ok (), (s.apply change).2) :=
        Prod.ext (by cases change <;> trivial) rfl
      rw [Store.applyAll, hsplit]
      have hext : s.Extends (s.apply change).2 :=
        extends_apply fun name run (heq : change = .edit name run) => by rwa [heq] at hq
      exact ih (hs.apply change) (hext.content c x hx)
        fun d hd => quiet d (List.mem_cons_of_mem change hd)

/-- A step keeps what is on the cell of a variable, unless it is a container that the step binds. -/
theorem Sound.content?_step (hs : s.Sound) {t : Step p} {m : Name} {c : CellId}
    (hm : ∀ kind d, s.find? m = some (.container kind d) → m ∉ t.binds) (hc : s.On c m) {x : Content p}
    (hx : s.content? c = some x) : (s.step t).2.content? c = some x := by
  cases hplan : s.plan t with
  | error failure => rwa [step_of_error hplan]
  | ok plan =>
    rw [hs.step_eq hplan]
    exact hs.content?_applyAll (plan_sure hplan) hm hc hx

end CowArrays.Store
