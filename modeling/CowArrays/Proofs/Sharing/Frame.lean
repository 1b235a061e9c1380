import CowArrays.Proofs.Sharing.Refinement

/-!
Frame laws. A step that fails leaves a store as it is, and a step that succeeds leaves every variable
bound as it was, to the same value, unless it is one of the names that the step binds.
-/

namespace CowArrays

variable {p : Precision}

/-! ### Plain values -/

namespace Plain

variable {s : Plain p} {n : Name}

theorem item?_set_of_ne {name : Name} (hn : n ≠ name) (i : Item p) :
    (s.set name i).item? n = s.item? n :=
  if_neg hn

theorem item?_of_value? {name : Name} {kind : Kind} {x : Payload p}
    (h : s.reading.value? name = some (.container kind x)) :
    s.item? name = some (.container kind x) := by
  obtain ⟨i, hi, hix⟩ := Option.map_eq_some_iff.1 h
  cases i with
  | container k y =>
    obtain ⟨rfl, rfl⟩ := Value.container.inj hix
    exact hi
  | _ => cases hix

theorem item?_derive_of_ne {name : Name} (hn : n ≠ name) (source : Name)
    (f : Item p → Option (Item p)) : (s.derive name source f).item? n = s.item? n := by
  unfold derive
  split
  · exact item?_set_of_ne hn _
  · rfl

theorem item?_rename_of_ne {name target : Name} (hn : n ≠ name) (ht : n ≠ target) :
    (s.rename name target).item? n = s.item? n := by
  unfold rename
  split
  · rw [item?_set_of_ne ht]
    exact if_neg hn
  · rfl

theorem item?_own_of_ne {name : Name} (hn : n ≠ name) : (s.own name).item? n = s.item? n := by
  unfold own
  split
  · exact item?_set_of_ne hn _
  · rfl

theorem item?_put_of_ne {name : Name} (hn : n ≠ name) (x : Payload p) :
    (s.put name x).item? n = s.item? n := by
  unfold put
  split
  · exact item?_set_of_ne hn _
  · rfl

theorem item?_settle_of_ne {name : Name} (hn : n ≠ name) {e : Edited p}
    (he : ∀ y, e.pattern = some y → n ≠ y.1) : (s.settle name e).item? n = s.item? n := by
  have hput := item?_put_of_ne (s := s) hn e.payload.owned
  unfold settle
  cases hp : e.pattern with
  | none => exact hput
  | some y => exact (item?_set_of_ne (he y hp) (.pattern y.2)).trans hput

theorem item?_settle {name : Name} {kind : Kind} {x : Payload p}
    (hx : s.item? name = some (.container kind x)) {e : Edited p}
    (he : ∀ y, e.pattern = some y → name ≠ y.1) :
    (s.settle name e).item? name = some (.container kind e.payload.owned) := by
  have hput : (s.put name e.payload.owned).item? name = some (.container kind e.payload.owned) := by
    simp only [put, hx]
    exact if_pos rfl
  unfold settle
  cases hp : e.pattern with
  | none => exact hput
  | some y => exact (item?_set_of_ne (he y hp) (.pattern y.2)).trans hput

theorem item?_own {name : Name} {kind : Kind} {x : Payload p}
    (hx : s.item? name = some (.container kind x)) :
    (s.own name).item? name = some (.container kind x.owned) := by
  simp only [own, hx]
  exact if_pos rfl

theorem item?_apply {names : List Name} (hn : n ∉ names) {change : Change p}
    (h : change.Quiet names) : (s.apply change).2.item? n = s.item? n := by
  have hne {name : Name} (hmem : name ∈ names) : n ≠ name := fun e => hn (e ▸ hmem)
  cases change with
  | create kind name x => exact item?_set_of_ne (hne h) _
  | createShared name x => exact item?_set_of_ne (hne h) _
  | view name origin offset count =>
    rw [apply]
    split
    · exact item?_set_of_ne (hne h) _
    · rfl
  | join kind name source => exact item?_derive_of_ne (hne h) source _
  | hold name source => exact item?_derive_of_ne (hne h) source _
  | observe name source => exact item?_derive_of_ne (hne h) source _
  | edit name run => cases h
  | setPattern name pattern => exact item?_set_of_ne (hne h) _
  | lend name octets => exact item?_set_of_ne (hne h) _
  | putFile name octets => rfl
  | drop name => exact if_neg (hne h)
  | rename name target => exact item?_rename_of_ne (hne h.1) (hne h.2)

end Plain

/-! ### Stores -/

namespace Store

variable {s : Store p} {n : Name}

theorem find?_derive_of_ne {name : Name} (hn : n ≠ name) (source : Name)
    (f : Binding p → Option (Binding p)) : (s.derive name source f).find? n = s.find? n := by
  unfold derive
  split
  · rw [find?_bind, if_neg hn]
  · rfl

theorem find?_rename_of_ne {name target : Name} (hn : n ≠ name) (ht : n ≠ target) :
    (s.rename name target).find? n = s.find? n := by
  cases hb : s.find? name with
  | none => simp [rename, hb]
  | some b => rw [find?_rename hb, if_neg ht, if_neg hn]

theorem find?_resolve {t : Store p} {origin : Origin} {source : SourceId}
    (h : s.resolve origin = some (source, t)) : t.find? n = s.find? n := by
  rcases resolve_cases h with rfl | ⟨octets, rfl⟩
  · rfl
  · rfl

theorem find?_settle_of_ne {name : Name} {e : Edited p} (he : ∀ y, e.pattern = some y → n ≠ y.1) :
    (s.settle name e).find? n = s.find? n := by
  unfold settle
  cases hp : e.pattern with
  | none => exact find?_modifyContent name n _
  | some y => exact (find?_bind y.1 n _).trans ((if_neg (he y hp)).trans (find?_modifyContent name n _))

theorem find?_apply {names : List Name} (hn : n ∉ names) {change : Change p}
    (h : change.Quiet names) : (s.apply change).2.find? n = s.find? n := by
  have hne {name : Name} (hmem : name ∈ names) : n ≠ name := fun e => hn (e ▸ hmem)
  cases change with
  | create kind name x => exact (find?_allocate name n _ _).trans (if_neg (hne h))
  | createShared name x => exact (find?_allocate name n _ _).trans (if_neg (hne h))
  | view name origin offset count =>
    rw [apply]
    cases hr : s.resolve origin with
    | none => rfl
    | some x =>
      exact (find?_allocate name n _ _).trans ((if_neg (hne h)).trans (find?_resolve hr))
  | join kind name source => exact find?_derive_of_ne (hne h) source _
  | hold name source => exact find?_derive_of_ne (hne h) source _
  | observe name source => exact find?_derive_of_ne (hne h) source _
  | edit name run => cases h
  | setPattern name pattern => exact (find?_bind name n _).trans (if_neg (hne h))
  | lend name octets => exact (find?_bind name n _).trans (if_neg (hne h))
  | putFile name octets => rfl
  | drop name => exact (find?_unbind name n).trans (if_neg (hne h))
  | rename name target => exact find?_rename_of_ne (hne h.1) (hne h.2)

/-- What changes that are sure to go through leave alone: the binding and the value of every name
that they do not bind. -/
theorem Sound.applyAll_frame (hs : s.Sound) {names : List Name} {changes : List (Change p)}
    (h : Sure s.reading names changes) (hn : n ∉ names) :
    (s.applyAll changes).2.find? n = s.find? n ∧
      (s.applyAll changes).2.plain.item? n = s.plain.item? n := by
  cases h with
  | @edit name run kind x e found succeeds mem pattern_mem =>
    -- an edit binds its container and perhaps a pattern, both of them among the names
    have hne : n ≠ name := fun heq => hn (heq ▸ mem)
    have hpattern : ∀ y, e.pattern = some y → n ≠ y.1 :=
      fun y hy heq => hn (heq ▸ pattern_mem y hy)
    obtain ⟨hedit, -, hplain⟩ := hs.edit_plain succeeds
    simp only [Store.applyAll, Store.apply, hedit, hplain]
    refine ⟨(find?_settle_of_ne hpattern).trans (find?_makeOwn_of_ne hne), ?_⟩
    rw [Plain.item?_settle_of_ne hne hpattern, Plain.item?_own_of_ne hne]
  | quiet quiet =>
    induction changes generalizing s with
    | nil => exact ⟨rfl, rfl⟩
    | cons change rest ih =>
      have hq := quiet change List.mem_cons_self
      obtain ⟨hok, hplain⟩ := hs.plain_apply hq
      have hsplit : s.apply change = (.ok (), (s.apply change).2) := Prod.ext hok rfl
      obtain ⟨hfind, hitem⟩ :=
        ih (hs.apply change) fun c hc => quiet c (List.mem_cons_of_mem change hc)
      have hfirst := Plain.item?_apply (s := s.plain) hn hq
      rw [hplain] at hfirst
      rw [Store.applyAll, hsplit]
      exact ⟨hfind.trans (find?_apply hn hq), hitem.trans hfirst⟩

theorem plan_sure {t : Step p} {plan : Plan p} (h : s.plan t = .ok plan) :
    Sure s.reading t.binds plan.changes := by
  cases t with
  | act a => exact a.plan_sure plan h
  | ask q =>
    obtain ⟨answer, -, rfl⟩ := Attempt.map_eq_ok.1 h
    exact .none
  | upgrade of out =>
    rw [Store.plan, upgradePlan] at h
    split at h
    · obtain rfl := Except.ok.inj h
      split
      · exact .none
      · exact .one List.mem_cons_self
    · cases h

theorem Sound.step_eq (hs : s.Sound) {t : Step p} {plan : Plan p} (h : s.plan t = .ok plan) :
    s.step t = (.ok plan.answer, (s.applyAll plan.changes).2) := by
  rw [step_of_ok h, (hs.plain_applyAll (plan_sure h)).1]
  rfl

theorem exists_plan_of_step {t : Step p} {answer : Answer p} (h : (s.step t).1 = .ok answer) :
    ∃ plan, s.plan t = .ok plan := by
  cases hplan : s.plan t with
  | error failure =>
    rw [step_of_error hplan] at h
    cases h
  | ok plan => exact ⟨plan, rfl⟩

theorem Sound.step_of_failed (hs : s.Sound) {t : Step p} {failure : Failure}
    (h : (s.step t).1 = .error failure) : (s.step t).2 = s := by
  cases hplan : s.plan t with
  | error failure => rw [step_of_error hplan]
  | ok plan =>
    rw [hs.step_eq hplan] at h
    cases h

/-- A step leaves alone what it does not bind. -/
theorem Sound.step_frame (hs : s.Sound) {t : Step p} (hn : n ∉ t.binds) :
    (s.step t).2.find? n = s.find? n ∧ (s.step t).2.plain.item? n = s.plain.item? n := by
  cases hplan : s.plan t with
  | error failure =>
    rw [step_of_error hplan]
    exact ⟨rfl, rfl⟩
  | ok plan =>
    rw [hs.step_eq hplan]
    exact hs.applyAll_frame (plan_sure hplan) hn

theorem Sound.value?_step (hs : s.Sound) {t : Step p} (hn : n ∉ t.binds) :
    (s.step t).2.reading.value? n = s.reading.value? n := by
  rw [← hs.reading_plain, ← (hs.step t).reading_plain]
  exact congrArg (Option.map Item.value) (hs.step_frame hn).2

/-- A step that plans one edit gives the container a cell of its own and puts what the edit makes
there. -/
theorem Sound.step_edit_eq (hs : s.Sound) {u : Step p} {name : Name} {answer : Answer p}
    {run : Reading p → Attempt (Edited p)} {e : Edited p}
    (hplan : s.plan u = .ok ⟨answer, [.edit name run]⟩) (hrun : run (s.reading.own name) = .ok e) :
    s.step u = (.ok answer, (s.makeOwn name).settle name e) := by
  obtain ⟨hedit, -, -⟩ := hs.edit_plain hrun
  rw [hs.step_eq hplan]
  simp [Store.applyAll, Store.apply, hedit]

/-- A step that plans one edit leaves what the edit makes, in the container and in the pattern where
it makes one. -/
theorem Sound.step_edit (hs : s.Sound) {u : Step p} {name : Name} {answer : Answer p}
    {run : Reading p → Attempt (Edited p)} {kind : Kind} {x : Payload p} {e : Edited p}
    (hplan : s.plan u = .ok ⟨answer, [.edit name run]⟩)
    (hx : s.reading.value? name = some (.container kind x))
    (hrun : run (s.reading.own name) = .ok e) (he : ∀ y, e.pattern = some y → name ≠ y.1) :
    ∃ t, s.step u = (.ok answer, t) ∧
      t.reading.value? name = some (.container kind e.payload.owned) ∧
      ∀ y, e.pattern = some y → t.reading.pattern y.1 = .ok y.2 := by
  obtain ⟨-, -, hplain⟩ := hs.edit_plain hrun
  have hstep := hs.step_edit_eq hplan hrun
  have ht := hs.step u
  rw [hstep] at ht
  have hitem : s.plain.item? name = some (.container kind x) := by
    refine Plain.item?_of_value? ?_
    rwa [hs.reading_plain]
  refine ⟨_, hstep, ?_, fun y hy => ?_⟩
  · rw [← ht.reading_plain, hplain]
    exact congrArg (Option.map Item.value) (Plain.item?_settle (Plain.item?_own hitem) he)
  · rw [← ht.reading_plain, hplain]
    refine Reading.pattern_eq_ok.2 ?_
    simp [Plain.settle, hy, Plain.set, Plain.reading, Item.value]

/-- A step that plans a new container leaves it under its name. -/
theorem Sound.step_create (hs : s.Sound) {u : Step p} {name : Name} {answer : Answer p}
    {kind : Kind} {x : Payload p} (hplan : s.plan u = .ok ⟨answer, [.create kind name x]⟩) :
    ∃ t, s.step u = (.ok answer, t) ∧
      t.reading.value? name = some (.container kind x.owned) := by
  have hstep : s.step u = (.ok answer, s.allocate name (.container kind) (.ofPayload x)) :=
    hs.step_eq hplan
  have ht := hs.step u
  rw [hstep] at ht
  refine ⟨_, hstep, ?_⟩
  rw [← ht.reading_plain, hs.plain_allocate, payload_ofPayload]
  simp [Plain.set, Plain.reading, Item.value]

end Store
end CowArrays
