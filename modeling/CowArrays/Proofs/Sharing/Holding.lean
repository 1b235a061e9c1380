import CowArrays.Proofs.Sharing.Keeping

/-!
Cells that the caller refers to or observes. They are held: no step writes one, as the container that
may write in place is alone on its cell. A cell that is not held never is again, as containers give no
references away, so what is held behind some steps was held all the time and has what it had.
-/

namespace CowArrays

variable {p : Precision}

namespace Store

variable {s t : Store p} {c : CellId}

/-! ### Cells stay -/

theorem Extends.size_le (h : s.Extends t) : s.cells.size ≤ t.cells.size := by
  refine Nat.le_of_not_lt fun hlt => ?_
  obtain ⟨x, hx⟩ := content?_of_lt hlt
  exact Nat.lt_irrefl _ (lt_of_content? (h.content _ x hx))

theorem size_bind (name : Name) (b : Binding p) : (s.bind name b).cells.size = s.cells.size := by
  have hunbind : ((s.retain b).unbind name).cells.size = (s.retain b).cells.size := by
    unfold unbind
    cases (s.retain b).find? name with
    | none => rfl
    | some b' => exact size_recount _ b'
  exact hunbind.trans (size_recount _ b)

theorem size_modifyContent (name : Name) (f : Content p → Content p) :
    (s.modifyContent name f).cells.size = s.cells.size := by
  unfold modifyContent
  split
  · exact Array.size_modify
  · rfl

theorem size_settle (name : Name) (e : Edited p) :
    (s.settle name e).cells.size = s.cells.size := by
  unfold settle
  cases e.pattern with
  | none => exact size_modifyContent name _
  | some y => exact (size_bind y.1 (.pattern y.2)).trans (size_modifyContent name _)

theorem size_le_makeOwn (name : Name) : s.cells.size ≤ (s.makeOwn name).cells.size := by
  rw [makeOwn, size_modifyContent]
  exact (extends_makeUnique name).size_le

theorem size_le_apply (change : Change p) : s.cells.size ≤ (s.apply change).2.cells.size := by
  by_cases he : ∃ name run, change = .edit name run
  · obtain ⟨name, run, rfl⟩ := he
    have hown := size_le_makeOwn (s := s) name
    rw [apply]
    cases hr : run (s.makeOwn name).reading with
    | ok e => rwa [edit_of_ok hr, size_settle]
    | error failure => rwa [edit_of_error hr]
  · exact (extends_apply fun name run heq => he ⟨name, run, heq⟩).size_le

theorem size_le_applyAll (changes : List (Change p)) :
    s.cells.size ≤ (s.applyAll changes).2.cells.size := by
  induction changes generalizing s with
  | nil => exact Nat.le_refl _
  | cons change rest ih =>
    have hle := size_le_apply (s := s) change
    rw [applyAll]
    rcases hs : s.apply change with ⟨failure | _, t⟩
    · rwa [hs] at hle
    · rw [hs] at hle
      exact Nat.le_trans hle ih

theorem size_le_step (t : Step p) : s.cells.size ≤ (s.step t).2.cells.size := by
  cases hplan : s.plan t with
  | error failure => simp only [step_of_error hplan, Nat.le_refl]
  | ok plan =>
    rw [step_of_ok hplan]
    exact size_le_applyAll plan.changes

/-! ### Cells that are held -/

/-- Whether a binding is a reference of the caller to a cell or an observer of it. -/
def Holds (c : CellId) (b : Binding p) : Prop := b = .shared c ∨ b = .observer c

def Held (s : Store p) (c : CellId) : Prop := ∃ n b, s.find? n = some b ∧ Holds c b

theorem not_holds_container {kind : Kind} {d : CellId} :
    ¬Holds c (.container kind d : Binding p) := by
  rintro (h | h) <;> cases h

theorem not_holds_of_cell? {b : Binding p} (hb : b.cell? = none) : ¬Holds c b := by
  rintro (rfl | rfl) <;> cases hb

theorem Holds.cell? {b : Binding p} (h : Holds c b) : b.cell? = some c := by
  rcases h with rfl | rfl <;> rfl

/-- What is on a cell and is no container holds it. -/
theorem holds_of_cell? {b : Binding p} (hcell : b.cell? = some c)
    (hno : ∀ kind d, b ≠ .container kind d) : Holds c b := by
  cases b with
  | container kind d => exact absurd rfl (hno kind d)
  | shared d => exact .inl (congrArg _ (Option.some.inj hcell))
  | observer d => exact .inr (congrArg _ (Option.some.inj hcell))
  | pattern x | buffer source => cases hcell

theorem held_of_find? (h : ∀ n b, t.find? n = some b → Holds c b → s.Held c) (held : t.Held c) :
    s.Held c :=
  held.elim fun n ⟨b, hb, hc⟩ => h n b hb hc

theorem held_bind {name : Name} {b : Binding p} (held : (s.bind name b).Held c) :
    Holds c b ∨ s.Held c := by
  obtain ⟨n, b', hb', hc⟩ := held
  rw [find?_bind] at hb'
  split at hb'
  · exact .inl (Option.some.inj hb' ▸ hc)
  · exact .inr ⟨n, b', hb', hc⟩

theorem held_allocate {name : Name} {binding : CellId → Binding p} {x : Content p}
    (held : (s.allocate name binding x).Held c) : Holds c (binding s.cells.size) ∨ s.Held c :=
  (held_bind held).imp_right id

theorem held_makeOwn {name : Name} (held : (s.makeOwn name).Held c) : s.Held c := by
  refine held_of_find? (fun n b hb hc => ?_) held
  rw [makeOwn, find?_modifyContent] at hb
  rcases makeUnique_cases s name with heq | ⟨kind, d, x, -, -, heq⟩
  · exact ⟨n, b, heq ▸ hb, hc⟩
  · have hallocated : (s.allocate name (.container kind) x.content).Held c := ⟨n, b, heq ▸ hb, hc⟩
    exact (held_allocate hallocated).resolve_left not_holds_container

theorem held_settle {name : Name} {e : Edited p} (held : (s.settle name e).Held c) : s.Held c := by
  have hput (hput : (s.modifyContent name fun _ => .ofPayload e.payload).Held c) : s.Held c := by
    obtain ⟨n, b, hb, hc⟩ := hput
    rw [find?_modifyContent] at hb
    exact ⟨n, b, hb, hc⟩
  unfold settle at held
  cases hp : e.pattern with
  | none => exact hput (by simpa [hp] using held)
  | some y =>
    simp only [hp] at held
    exact hput ((held_bind held).resolve_left (not_holds_of_cell? rfl))

end Store

/-! ### Changes that give no references away -/

/-- Whether a change makes no reference of the caller, and no observer, to a cell that is there. -/
def Change.Closed : Change p → Prop
  | hold _ _ => False
  | observe _ _ => False
  | _ => True

def Plan.Closed (plan : Plan p) : Prop := ∀ change ∈ plan.changes, change.Closed

theorem Plan.closed_none (answer : Answer p) : (Plan.tell answer).Closed := nofun

theorem Plan.closed_one {answer : Answer p} {change : Change p} (h : change.Closed) :
    Plan.Closed ⟨answer, [change]⟩ :=
  List.forall_mem_cons.2 ⟨h, nofun⟩

theorem Plan.closed_two {answer : Answer p} {change change' : Change p} (h : change.Closed)
    (h' : change'.Closed) : Plan.Closed ⟨answer, [change, change']⟩ :=
  List.forall_mem_cons.2 ⟨h, List.forall_mem_cons.2 ⟨h', nofun⟩⟩

open Attempt (Yields)

/-- The only actions that plan such a change are those that make one reference of another. -/
theorem Action.plan_closed {r : Reading p} (a : Action p) :
    (∃ of out, a = .sharing (.cloneShared of out) ∨ a = .sharing (.observe of out)) ∨
      Yields Plan.Closed (a.plan r) := by
  rcases a with t | t | t | t | t | t <;> cases t
  case sharing.cloneShared of out => exact .inl ⟨of, out, .inl rfl⟩
  case sharing.observe of out => exact .inl ⟨of, out, .inr rfl⟩
  -- the others read and check, and plan no change, one or two
  all_goals
    refine .inr ?_
    simp only [plan, VectorStep.plan, MatrixStep.plan, PatternStep.plan, HandleStep.plan,
      SharingStep.plan, MemoryStep.plan]
    repeat' first
      | exact .ok (Plan.closed_none _)
      | exact .ok (Plan.closed_one trivial)
      | exact .ok (Plan.closed_two trivial trivial)
      | exact .error
      | refine .bind fun _ _ => ?_
      | split

namespace Store

variable {s t : Store p} {c : CellId}

/-- Whether changes give no reference to the cell of a container away. -/
inductive Discreet (s : Store p) : List (Change p) → Prop
  | closed {changes : List (Change p)} (closed : ∀ change ∈ changes, change.Closed) :
      Discreet s changes
  | hold {name source : Name} (free : ∀ kind d, s.find? source ≠ some (.container kind d)) :
      Discreet s [.hold name source]
  | observe {name source : Name} (free : ∀ kind d, s.find? source ≠ some (.container kind d)) :
      Discreet s [.observe name source]

theorem not_container_of_shared {name : Name} {x : Payload p} (h : s.reading.shared name = .ok x) :
    ∀ kind d, s.find? name ≠ some (.container kind d) := by
  obtain ⟨c, hc⟩ := find?_of_shared h
  intro kind d hd
  cases hc.symm.trans hd

theorem discreet_plan {t : Step p} {plan : Plan p} (h : s.plan t = .ok plan) :
    s.Discreet plan.changes := by
  cases t with
  | act a =>
    rcases a.plan_closed (r := s.reading) with ⟨of, out, rfl | rfl⟩ | hclosed
    · obtain ⟨x, hx, hrest⟩ := Attempt.bind_eq_ok.1 h
      obtain rfl := Except.ok.inj hrest
      exact .hold (not_container_of_shared hx)
    · obtain ⟨x, hx, hrest⟩ := Attempt.bind_eq_ok.1 h
      obtain rfl := Except.ok.inj hrest
      exact .observe (not_container_of_shared hx)
    · exact .closed (hclosed plan h)
  | ask q =>
    obtain ⟨answer, -, rfl⟩ := Attempt.map_eq_ok.1 h
    exact .closed (Plan.closed_none answer)
  | upgrade of out =>
    rw [Store.plan, upgradePlan] at h
    split at h
    · rename_i c hc
      obtain rfl := Except.ok.inj h
      split
      · exact .closed (Plan.closed_none _)
      · refine .hold fun kind d hd => ?_
        cases hc.symm.trans hd
    · cases h

/-- What is derived of a reference or an observer holds no other cell. -/
theorem held_derive {name source : Name} {f : Binding p → Option (Binding p)}
    (free : ∀ kind d, s.find? source ≠ some (.container kind d))
    (hf : ∀ b b' d, f b = some b' → b'.cell? = some d → b.cell? = some d)
    (held : (s.derive name source f).Held c) : s.Held c := by
  unfold derive at held
  split at held
  · rename_i b' hb'
    obtain ⟨b, hb, hbb⟩ := Option.bind_eq_some_iff.1 hb'
    refine (held_bind held).elim (fun hc => ⟨source, b, hb, ?_⟩) id
    exact holds_of_cell? (hf b b' c hbb hc.cell?) fun kind d heq => free kind d (heq ▸ hb)
  · exact held

theorem held_resolve {origin : Origin} {source : SourceId} (h : s.resolve origin = some (source, t))
    (held : t.Held c) : s.Held c :=
  held_of_find? (fun n b hb hc => ⟨n, b, (find?_resolve h).symm.trans hb, hc⟩) held

theorem held_apply {change : Change p} (h : change.Closed) (hc : c < s.cells.size)
    (held : (s.apply change).2.Held c) : s.Held c := by
  cases change with
  | create kind name x => exact (held_allocate held).resolve_left not_holds_container
  | createShared name x =>
    refine (held_allocate held).resolve_left fun hnew => ?_
    have heq : some s.cells.size = some c := hnew.cell?
    exact Nat.lt_irrefl c (Option.some.inj heq ▸ hc)
  | view name origin offset count =>
    rw [apply] at held
    cases hr : s.resolve origin with
    | none => simpa [hr] using held
    | some x =>
      simp only [hr] at held
      exact held_resolve hr ((held_allocate held).resolve_left not_holds_container)
  | join kind name source =>
    rw [apply, derive] at held
    split at held
    · rename_i b' hb'
      obtain ⟨b, -, hbb⟩ := Option.bind_eq_some_iff.1 hb'
      obtain ⟨d, -, rfl⟩ := Option.map_eq_some_iff.1 hbb
      exact (held_bind held).resolve_left not_holds_container
    · exact held
  | hold name source | observe name source => exact h.elim
  | edit name run =>
    rw [apply] at held
    cases hr : run (s.makeOwn name).reading with
    | ok e =>
      rw [edit_of_ok hr] at held
      exact held_makeOwn (held_settle held)
    | error failure =>
      rw [edit_of_error hr] at held
      exact held_makeOwn held
  | setPattern name pattern => exact (held_bind held).resolve_left (not_holds_of_cell? rfl)
  | lend name octets =>
    exact (held_bind held).resolve_left (not_holds_of_cell? rfl)
  | putFile name octets => exact held
  | drop name =>
    refine held_of_find? (fun n b hb hc => ⟨n, b, ?_, hc⟩) held
    rw [apply, find?_unbind] at hb
    split at hb
    · cases hb
    · exact hb
  | rename name target =>
    rw [apply] at held
    cases hb : s.find? name with
    | none => simpa [rename, hb] using held
    | some b =>
      obtain ⟨n, b', hb', hc⟩ := held
      rw [find?_rename hb] at hb'
      split at hb'
      · exact ⟨name, b, hb, Option.some.inj hb' ▸ hc⟩
      · split at hb'
        · cases hb'
        · exact ⟨n, b', hb', hc⟩

/-- Discreet changes hold no cell that was there before and was not held. -/
theorem held_applyAll {changes : List (Change p)} (h : s.Discreet changes) (hc : c < s.cells.size)
    (held : (s.applyAll changes).2.Held c) : s.Held c := by
  cases h with
  | hold free => exact held_derive free (fun _ _ _ => cell?_of_toShared?) held
  | observe free => exact held_derive free (fun _ _ _ => cell?_of_toObserver?) held
  | closed closed =>
    induction changes generalizing s with
    | nil => exact held
    | cons change rest ih =>
      refine held_apply (closed change List.mem_cons_self) hc ?_
      have hle := Nat.lt_of_lt_of_le hc (size_le_apply change)
      rw [applyAll] at held
      rcases hs : s.apply change with ⟨failure | _, t⟩
      · simpa only [hs] using held
      · rw [hs] at held hle
        exact ih hle held fun d hd => closed d (List.mem_cons_of_mem change hd)

/-! ### Steps and runs -/

/-- A cell that was there is only held behind a step if it was before. -/
theorem held_step {t : Step p} (hc : c < s.cells.size) (held : (s.step t).2.Held c) : s.Held c := by
  cases hplan : s.plan t with
  | error failure => rwa [step_of_error hplan] at held
  | ok plan =>
    rw [step_of_ok hplan] at held
    exact held_applyAll (discreet_plan hplan) hc held

theorem held_after {steps : List (Step p)} (hc : c < s.cells.size)
    (held : (s.after steps).Held c) : s.Held c := by
  induction steps generalizing s with
  | nil => exact held
  | cons t rest ih =>
    exact held_step hc (ih (Nat.lt_of_lt_of_le hc (size_le_step t)) held)

/-- A cell that is held is not written. -/
theorem Sound.payload?_step (hs : s.Sound) (held : s.Held c) {x : Payload p}
    (hx : s.payload? c = some x) (t : Step p) : (s.step t).2.payload? c = some x := by
  obtain ⟨n, b, hb, hc⟩ := held
  have hno (kind : Kind) (d : CellId) (hd : s.find? n = some (.container kind d)) : n ∉ t.binds := by
    obtain rfl := Option.some.inj (hb.symm.trans hd)
    exact absurd hc not_holds_container
  rw [payload?_eq] at hx ⊢
  obtain ⟨y, hy, rfl⟩ := Option.map_eq_some_iff.1 hx
  rw [hs.content?_step hno (on_of_find? hb hc.cell?) hy, Option.map_some,
    payload_of_sources (fun i octets h => source_step t h) (hs.backed.content c y hy)]

theorem lt_of_payload? {x : Payload p} (hx : s.payload? c = some x) : c < s.cells.size := by
  rw [payload?_eq] at hx
  obtain ⟨y, hy, -⟩ := Option.map_eq_some_iff.1 hx
  exact lt_of_content? hy

/-- What is held behind some steps was held all the time, so it is what it was before. -/
theorem Sound.payload?_after (hs : s.Sound) {x : Payload p} (hx : s.payload? c = some x)
    {steps : List (Step p)} (held : (s.after steps).Held c) :
    (s.after steps).payload? c = some x := by
  induction steps generalizing s with
  | nil => exact hx
  | cons t rest ih =>
    have hc := lt_of_payload? hx
    have hnext := held_after (Nat.lt_of_lt_of_le hc (size_le_step t)) held
    exact ih (hs.step t) (hs.payload?_step (held_step hc hnext) hx t) held

end Store
end CowArrays
