import CowArrays.Proofs.Session.Binds
import CowArrays.Proofs.Sharing.Simulation

/-!
Copy-on-write refines plain values. Every step of a store is a step of the plain values that it
stands for, and so is every run.
-/

namespace CowArrays

variable {p : Precision}

namespace Store

variable {s t : Store p}

/-! ### Changes -/

/-- A change that is no edit succeeds, and stands for the same change of plain values. -/
theorem Sound.plain_apply (hs : s.Sound) {names : List Name} {change : Change p}
    (h : change.Quiet names) :
    (s.apply change).1 = .ok () ∧ s.plain.apply change = (.ok (), (s.apply change).2.plain) := by
  refine ⟨by cases change <;> trivial, ?_⟩
  cases change with
  | create kind name x =>
    rw [Store.apply, hs.plain_allocate, payload_ofPayload]
    rfl
  | createShared name x =>
    rw [Store.apply, hs.plain_allocate_shared, payload_ofPayload]
    rfl
  | view name origin offset count =>
    simp only [Plain.apply, hs.resolve_plain, Store.apply]
    cases hr : s.resolve origin with
    | none => rfl
    | some x =>
      obtain ⟨source, t⟩ := x
      obtain ⟨ht, -, hplain⟩ := hs.resolve hr
      simp only [Option.map_some]
      rw [ht.plain_allocate, hplain]
      rfl
  | join kind name source =>
    rw [Store.apply, hs.plain_derive name source (derives_toContainer? kind) fun b b' hb => ?_]
    · rfl
    · obtain ⟨c, -, rfl⟩ := Option.map_eq_some_iff.1 hb
      trivial
  | hold name source =>
    rw [Store.apply, hs.plain_derive name source derives_toShared? fun b b' hb => ?_]
    · rfl
    · obtain ⟨c, -, rfl⟩ := Option.map_eq_some_iff.1 hb
      trivial
  | observe name source =>
    rw [Store.apply, hs.plain_derive name source derives_toObserver? fun b b' hb => ?_]
    · rfl
    · obtain ⟨c, -, rfl⟩ := Option.map_eq_some_iff.1 hb
      trivial
  | edit name run => cases h
  | setPattern name pattern =>
    rw [Store.apply, setPattern, hs.plain_bind name (b := .pattern pattern) trivial rfl]
    rfl
  | lend name octets =>
    have hadd : (s.addSource octets).2.Sound :=
      ⟨hs.accounted.addSource octets, hs.backed.addSource octets⟩
    have hlt : s.sources.size < (s.addSource octets).2.sources.size := by simp [addSource]
    have hbind := hadd.plain_bind name (b := .buffer s.sources.size) hlt
      (congrArg (fun o => some (Item.buffer o)) (octets_addSource octets))
    rw [hs.plain_addSource] at hbind
    exact congrArg (Prod.mk (Except.ok ())) hbind.symm
  | putFile name octets =>
    rw [Store.apply, hs.plain_putFile]
    rfl
  | drop name =>
    rw [Store.apply, hs.plain_unbind]
    rfl
  | rename name target =>
    rw [Store.apply, hs.plain_rename]
    rfl

/-- Changes that are sure to go through do, and stand for the same changes of plain values. -/
theorem Sound.plain_applyAll (hs : s.Sound) {names : List Name} {changes : List (Change p)}
    (h : Sure s.reading names changes) : (s.applyAll changes).1 = .ok () ∧
      s.plain.applyAll changes = (.ok (), (s.applyAll changes).2.plain) := by
  cases h with
  | edit found succeeds mem pattern_mem =>
    obtain ⟨hedit, hplain, heq⟩ := hs.edit_plain succeeds
    simp only [Store.applyAll, Store.apply, hedit, Plain.applyAll, Plain.apply, hplain, heq,
      and_self]
  | quiet quiet =>
    induction changes generalizing s with
    | nil => exact ⟨rfl, rfl⟩
    | cons change rest ih =>
      obtain ⟨hok, hplain⟩ := hs.plain_apply (quiet change List.mem_cons_self)
      have hnext := ih (hs.apply change) fun c hc => quiet c (List.mem_cons_of_mem change hc)
      have hsplit : s.apply change = (.ok (), (s.apply change).2) := Prod.ext hok rfl
      rw [Store.applyAll, Plain.applyAll, hplain, hsplit]
      exact hnext

/-! ### Steps -/

theorem Sound.step (hs : s.Sound) (t : Step p) : (s.step t).2.Sound := by
  cases hplan : s.plan t with
  | error failure =>
    rw [step_of_error hplan]
    exact hs
  | ok plan =>
    rw [step_of_ok hplan]
    exact hs.applyAll plan.changes

theorem Sound.plain_act (hs : s.Sound) (a : Action p) :
    s.plain.act a = ((s.step (.act a)).1, (s.step (.act a)).2.plain) := by
  have hreading := hs.reading_plain
  cases hplan : a.plan s.reading with
  | error failure =>
    rw [Plain.act_of_error (hreading ▸ hplan), step_of_error (t := .act a) hplan]
  | ok plan =>
    have ⟨hok, hplain⟩ := hs.plain_applyAll (a.plan_sure plan hplan)
    rw [Plain.act_of_ok (hreading ▸ hplan), step_of_ok (t := .act a) hplan, hplain, hok]

theorem cellOf_cases (s : Store p) (kind : Kind) (name : Name) :
    (∃ failure, s.cellOf kind name = .error failure ∧
      s.reading.container kind name = .error failure) ∨
      ∃ c x, s.cellOf kind name = .ok c ∧ s.reading.container kind name = .ok x := by
  unfold cellOf
  cases hx : s.reading.container kind name with
  | error failure => exact .inl ⟨failure, rfl, rfl⟩
  | ok x =>
    obtain ⟨c, hc, -⟩ := value?_eq_container.1 (Reading.container_eq_ok.1 hx)
    exact .inr ⟨c, x, by rw [Attempt.ok_bind, hc]; rfl, rfl⟩

theorem answer_check (q : Question) :
    (s.answer q).map (fun _ => ()) = q.check s.reading := by
  cases q with
  | isUnique kind of | ownerCount kind of =>
    rw [answer, Question.check]
    rcases s.cellOf_cases kind of with ⟨failure, hcell, hx⟩ | ⟨c, x, hcell, hx⟩
    · rw [hcell, hx]
      rfl
    · rw [hcell, hx]
      rfl
  | shares kind of other =>
    rw [answer, Question.check]
    rcases s.cellOf_cases kind of with ⟨failure, hcell, hx⟩ | ⟨c, x, hcell, hx⟩
    · rw [hcell, hx]
      rfl
    rw [hcell, hx, Attempt.ok_bind, Attempt.ok_bind]
    rcases s.cellOf_cases kind other with ⟨failure, hcell, hx⟩ | ⟨d, y, hcell, hx⟩
    · rw [hcell, hx]
      rfl
    · rw [hcell, hx]
      rfl

theorem step_ask (q : Question) : s.step (.ask q) = (s.answer q, s) := by
  have hplan : s.plan (.ask q) = (s.answer q).map .tell := rfl
  cases ha : s.answer q with
  | error failure =>
    rw [ha] at hplan
    exact step_of_error hplan
  | ok answer =>
    rw [ha] at hplan
    exact step_of_ok hplan

theorem step_upgrade_of_dead {c : CellId} {of : Name} (hc : s.find? of = some (.observer c))
    (hdead : s.strong c = 0) (out : Name) : s.step (.upgrade of out) = (.ok .absent, s) := by
  have hplan : s.plan (.upgrade of out) = .ok (.tell .absent) := by
    simp only [Store.plan, upgradePlan, hc, if_pos hdead]
  exact step_of_ok hplan

theorem step_upgrade_of_alive {c : CellId} {of : Name} (hc : s.find? of = some (.observer c))
    (halive : s.strong c ≠ 0) (out : Name) :
    s.step (.upgrade of out) = (.ok .done, s.bind out (.shared c)) := by
  have hhold : s.apply (.hold out of) = (.ok (), s.bind out (.shared c)) := by
    simp [Store.apply, derive, hc, Binding.toShared?, Binding.cell?, Binding.owned?,
      Binding.observed?]
  have hplan : s.plan (.upgrade of out) = .ok (.change [.hold out of]) := by
    simp only [Store.plan, upgradePlan, hc, if_neg halive]
  rw [step_of_ok hplan, Plan.change, Store.applyAll, hhold]
  rfl

theorem step_upgrade_of_not_observer {of : Name} (h : ∀ c, s.find? of ≠ some (.observer c))
    (out : Name) : s.step (.upgrade of out) = (.error (.unknown of), s) := by
  refine step_of_error (t := .upgrade of out) ?_
  show s.upgradePlan of out = .error (.unknown of)
  unfold upgradePlan
  split
  · rename_i c hc
    exact absurd hc (h c)
  · rfl

/-- Every step of a store is a step of its plain values. -/
theorem Sound.takes (hs : s.Sound) (t : Step p) :
    s.plain.Takes t (s.step t).1 (s.step t).2.plain := by
  cases t with
  | act a =>
    have hact := hs.plain_act a
    have htakes : s.plain.Takes (.act a) (s.plain.act a).1 (s.plain.act a).2 := .act a
    rwa [hact] at htakes
  | ask q =>
    have hcheck := answer_check (s := s) q
    rw [← hs.reading_plain] at hcheck
    rw [step_ask]
    exact .ask q _ hcheck
  | upgrade of out =>
    -- plain values allow both outcomes; which one it is depends on the owners that are left
    by_cases hobserver : ∃ c, s.find? of = some (.observer c)
    · obtain ⟨c, hc⟩ := hobserver
      obtain ⟨x, hx⟩ := hs.payload?_of_on (on_of_find? hc rfl)
      have hsaw : s.plain.item? of = some (.observer x) := by simp [plain, hc, item, hx]
      by_cases hdead : s.strong c = 0
      · rw [step_upgrade_of_dead hc hdead]
        exact .gone of out x hsaw
      · have hshared : s.item (.shared c) = some (.shared x) := by simp [item, hx]
        rw [step_upgrade_of_alive hc hdead, hs.plain_bind out (b := .shared c) trivial hshared]
        exact .alive of out x hsaw
    · have hno : ∀ c, s.find? of ≠ some (.observer c) := fun c hc => hobserver ⟨c, hc⟩
      rw [step_upgrade_of_not_observer hno]
      refine .unknown of out fun x hx => ?_
      obtain ⟨b, hb, hi⟩ := Option.bind_eq_some_iff.1 hx
      cases b with
      | observer c => exact hno c hb
      | container _ c | shared c =>
        obtain ⟨_, -, hne⟩ := Option.map_eq_some_iff.1 hi
        cases hne
      | pattern y | buffer source => cases hi

end Store

/-! ### Runs -/

theorem Plain.Takes.functional {s t u : Plain p} {step : Step p} {answer : Attempt (Answer p)}
    (ht : s.Takes step answer t) (hu : s.Takes step answer u) : t = u := by
  cases ht with
  | act a => cases hu with
    | act => rfl
  | ask q => cases hu with
    | ask => rfl
  | gone of out x saw => cases hu with
    | gone => rfl
  | alive of out x saw => cases hu with
    | alive _ _ y saw' =>
      obtain rfl : x = y := Item.observer.inj (Option.some.inj (saw.symm.trans saw'))
      rfl
  | unknown of out saw => cases hu with
    | unknown => rfl

theorem Plain.Runs.functional {s : Plain p} {steps : List (Step p)}
    {outs outs' : List (Attempt (Answer p) × Plain p)} (h : s.Runs steps outs)
    (h' : s.Runs steps outs') (heq : outs'.map Prod.fst = outs.map Prod.fst) : outs' = outs := by
  induction h generalizing outs' with
  | nil s =>
    cases h'
    rfl
  | cons first behind ih =>
    cases h' with
    | cons first' behind' =>
      obtain ⟨rfl, hrest⟩ := List.cons.inj heq
      obtain rfl := first.functional first'
      rw [ih behind' hrest]

/-- Every run of a store is a run of its plain values. -/
theorem Store.Sound.runs {s : Store p} (hs : s.Sound) (steps : List (Step p)) :
    s.plain.Runs steps ((s.run steps).map fun x => (x.1, x.2.plain)) := by
  induction steps generalizing s with
  | nil => exact .nil s.plain
  | cons t rest ih => exact .cons (hs.takes t) (ih (hs.step t))

theorem Store.Sound.of_mem_run {s : Store p} (hs : s.Sound) (steps : List (Step p)) :
    ∀ x ∈ s.run steps, x.2.Sound := by
  induction steps generalizing s with
  | nil => exact nofun
  | cons t rest ih =>
    intro x hx
    rcases List.mem_cons.1 hx with rfl | hx
    · exact hs.step t
    · exact ih (hs.step t) x hx

/-- Copy-on-write refines plain values: whatever the steps are, there is a run of plain values in
which every step comes to the same, with the same to read behind it, and it is the only one in which
the steps come to this. -/
theorem run_refines_plain (steps : List (Step p)) :
    ∃ outs : List (Attempt (Answer p) × Plain p), Plain.Runs {} steps outs ∧
      (Store.run {} steps).map (fun x => (x.1, x.2.reading)) =
        outs.map (fun x => (x.1, x.2.reading)) ∧
      ∀ outs', Plain.Runs {} steps outs' → outs'.map Prod.fst = outs.map Prod.fst →
        outs' = outs := by
  -- the run is the one of what the stores stand for
  have hruns := Store.sound_start.runs steps
  refine ⟨_, hruns, ?_, fun outs' h' heq => hruns.functional h' heq⟩
  rw [List.map_map]
  refine List.map_congr_left fun x hx => ?_
  have hx := Store.sound_start.of_mem_run steps x hx
  exact Prod.ext rfl hx.reading_plain.symm

end CowArrays
