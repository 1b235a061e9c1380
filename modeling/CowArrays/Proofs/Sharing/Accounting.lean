import CowArrays.Proofs.Sharing.Frame
import CowArrays.Proofs.Storage.Sums

/-!
What sharing comes to in every store that can be reached: the answers to questions about sharing are
right, a container that was changed is alone on its cell, and nothing else moves.
-/

namespace CowArrays

variable {p : Precision}

namespace Store

variable {s t : Store p}

inductive Reachable : Store p → Prop
  | start : Reachable {}
  | step {s : Store p} (t : Step p) (h : Reachable s) : Reachable (s.step t).2

theorem Reachable.sound (h : s.Reachable) : s.Sound := by
  induction h with
  | start => exact sound_start
  | step t _ ih => exact ih.step t

def after (s : Store p) : List (Step p) → Store p
  | [] => s
  | t :: rest => (s.step t).2.after rest

theorem Reachable.after (h : s.Reachable) (steps : List (Step p)) : (s.after steps).Reachable := by
  induction steps generalizing s with
  | nil => exact h
  | cons t rest ih => exact ih (.step t h)

/-! ### Answers -/

/-- The cell of a container of a kind is the one that it is bound to as such, with what is there. -/
theorem cellOf_eq_ok {kind : Kind} {name : Name} {c : CellId} :
    s.cellOf kind name = .ok c ↔
      s.find? name = some (.container kind c) ∧ ∃ x, s.payload? c = some x := by
  unfold cellOf
  rw [Attempt.bind_eq_ok]
  constructor
  · rintro ⟨x, hx, hfind⟩
    obtain ⟨d, hd, hpayload⟩ := value?_eq_container.1 (Reading.container_eq_ok.1 hx)
    rw [hd] at hfind
    obtain rfl : d = c := Except.ok.inj hfind
    exact ⟨hd, x, hpayload⟩
  · rintro ⟨hc, x, hx⟩
    refine ⟨x, Reading.container_eq_ok.2 (value?_eq_container.2 ⟨c, hc, hx⟩), ?_⟩
    rw [hc]
    rfl

/-- A container of a kind is on the same cell in two stores that agree on its name. -/
theorem Sound.cellOf_congr (hs : s.Sound) (ht : t.Sound) {n : Name} (hfind : t.find? n = s.find? n)
    (hitem : t.plain.item? n = s.plain.item? n) (kind : Kind) :
    t.cellOf kind n = s.cellOf kind n := by
  have hvalue : t.reading.value? n = s.reading.value? n := by
    rw [← hs.reading_plain, ← ht.reading_plain]
    exact congrArg (Option.map Item.value) hitem
  unfold cellOf Reading.container Reading.get
  rw [hfind, hvalue]

theorem Sound.answer_shares_step (hs : s.Sound) {u : Step p} {x y : Name} (hx : x ∉ u.binds)
    (hy : y ∉ u.binds) (kind : Kind) :
    (s.step u).2.answer (.shares kind x y) = s.answer (.shares kind x y) := by
  have ⟨hfx, hix⟩ := hs.step_frame hx
  have ⟨hfy, hiy⟩ := hs.step_frame hy
  rw [answer, answer, hs.cellOf_congr (hs.step u) hfx hix, hs.cellOf_congr (hs.step u) hfy hiy]

end Store

/-! ### Changing containers -/

/-- Whether a step changes a container of a kind: it edits its entries or puts others in their place,
whether there are any or not. Adding the entries of another matrix that exceed a bound counts where
there is one. -/
inductive Step.Mutates (r : Reading p) : Step p → Kind → Name → Prop
  | vector (k : VectorKind) (of : Name) (e : VectorEdit p) :
      Mutates r (.act (.vector (.edit k of e))) k.kind of
  | assignVector (k : VectorKind) (of source : Name) :
      Mutates r (.act (.vector (.assign k of source))) k.kind of
  | matrix (of : Name) (e : MatrixEdit p) (other : ∀ source eps, e ≠ .addExceeding source eps) :
      Mutates r (.act (.matrix (.edit of e))) .matrix of
  | addExceeding (of source : Name) (eps : Scalar p) (g : Grid p) (i j : Nat) (x : Scalar p)
      (found : r.matrix source = .ok g) (entry : g.read? i j = some x)
      (exceeds : eps.lt x.magnitude = true) :
      Mutates r (.act (.matrix (.edit of (.addExceeding source eps)))) .matrix of
  | assignMatrix (of source : Name) : Mutates r (.act (.matrix (.assign of source))) .matrix of
  | multiply (walk : Walk) (of x y : Name) :
      Mutates r (.act (.matrix (.multiply walk of x y))) .vector y
  | load (of : Name) (feed : Feed) (out : Name) (other : out ≠ of) :
      Mutates r (.act (.matrix (.load of feed out))) .matrix of
  | write (of : Name) (w : Rewrite p) : Mutates r (.act (.handle (.write of w))) .handle of
  | touch (of : Name) : Mutates r (.act (.handle (.touch of))) .handle of

/-- Changes that give a container of a kind other content. -/
inductive Rewrites (r : Reading p) (kind : Kind) (of : Name) : List (Change p) → Prop
  | edit {run : Reading p → Attempt (Edited p)} {x : Payload p}
      (found : r.value? of = some (.container kind x))
      (pattern : ∀ r e y, run r = .ok e → e.pattern = some y → y.1 ≠ of) :
      Rewrites r kind of [.edit of run]
  | create (x : Payload p) : Rewrites r kind of [.create kind of x]

open Attempt (Yields)

variable {r : Reading p}

theorem rewrites_planEdit {kind : Kind} {of : Name} {x : Payload p}
    (found : r.value? of = some (.container kind x)) (run : Reading p → Attempt (Payload p)) :
    Rewrites r kind of (Plan.edit of run).changes := by
  refine .edit found fun r e y he hy => ?_
  obtain ⟨z, -, rfl⟩ := Attempt.map_eq_ok.1 he
  cases hy

/-- A step that changes a container plans to give it other content. -/
theorem Step.Mutates.rewrites {s : Store p} {t : Step p} {kind : Kind} {of : Name}
    (h : t.Mutates s.reading kind of) :
    Yields (fun plan => Rewrites s.reading kind of plan.changes) (s.plan t) := by
  cases h with
  | vector k of e =>
    refine .bind fun ⟨v, isView⟩ hv => .bind fun _ _ => .ok ?_
    obtain ⟨x, hx, -⟩ := VectorKind.read_eq_ok hv
    exact rewrites_planEdit hx _
  | assignVector k of source => exact .bind fun _ _ => .bind fun v _ => .ok (.create _)
  | matrix of e other =>
    refine .bind fun g hg => .bind fun _ _ => .bind fun isNeeded hneeded => ?_
    have hyes : isNeeded = true := by
      cases e with
      | addExceeding source eps => exact absurd rfl (other source eps)
      | _ => exact (Except.ok.inj hneeded).symm
    rw [hyes]
    exact .ok (rewrites_planEdit (Reading.matrix_eq_ok.1 hg) _)
  | addExceeding of source eps g i j x found entry exceeds =>
    refine .bind fun g' hg' => .bind fun _ _ => .bind fun isNeeded hneeded => ?_
    have hyes : isNeeded = true := by
      rw [MatrixEdit.isNeeded, found] at hneeded
      obtain ⟨any, hany, hiff⟩ := g.exists_anyExceeding eps
      obtain rfl := Except.ok.inj (hany.symm.trans hneeded)
      exact hiff.2 ⟨i, j, x, entry, exceeds⟩
    rw [hyes]
    exact .ok (rewrites_planEdit (Reading.matrix_eq_ok.1 hg') _)
  | assignMatrix of source => exact .bind fun _ _ => .bind fun _ _ => .ok (.create _)
  | multiply walk of x y =>
    refine .bind fun g _ => .bind fun v _ => .bind fun w hw => .bind fun _ _ => .ok ?_
    exact rewrites_planEdit (Reading.vector_eq_ok.1 hw) _
  | load of feed out other =>
    refine .bind fun g hg => .bind fun ts _ => .ok ?_
    refine .edit (Reading.matrix_eq_ok.1 hg) fun r e y he hy => ?_
    obtain ⟨g', -, hfill⟩ := Attempt.bind_eq_ok.1 he
    obtain ⟨⟨g'', pattern⟩, -, hrest⟩ := Attempt.bind_eq_ok.1 hfill
    obtain rfl := Except.ok.inj hrest
    obtain rfl := Option.some.inj hy
    exact other
  | write of w =>
    exact .bind fun x hx => .bind fun _ _ =>
      .ok (rewrites_planEdit (Reading.container_eq_ok.1 hx) _)
  | touch of =>
    exact .bind fun x hx => .ok (rewrites_planEdit (Reading.container_eq_ok.1 hx) _)

namespace Store

variable {s : Store p}

theorem on_of_on_settle {name n : Name} {e : Edited p} {c : CellId}
    (h : (s.settle name e).On c n) : s.On c n := by
  unfold settle at h
  cases hp : e.pattern with
  | none => simpa [On, hp] using h
  | some y =>
    simp only [On, hp, setPattern, find?_bind] at h
    split at h
    · cases h
    · simpa [On] using h

theorem payload?_of_item? {name : Name} {kind : Kind} {d : CellId} {x : Payload p}
    (hd : s.find? name = some (.container kind d))
    (hx : s.plain.item? name = some (.container kind x)) : s.payload? d = some x := by
  simpa [plain, hd, item] using hx

/-- Where a step that changes a container goes through, it makes the changes that it planned. -/
theorem Sound.exists_rewrites (hs : s.Sound) {t : Step p} {kind : Kind} {of : Name}
    {answer : Answer p} (ht : t.Mutates s.reading kind of) (hok : (s.step t).1 = .ok answer) :
    ∃ names changes, Sure s.reading names changes ∧ Rewrites s.reading kind of changes ∧
      (s.step t).2 = (s.applyAll changes).2 := by
  obtain ⟨plan, hplan⟩ := exists_plan_of_step hok
  exact ⟨t.binds, plan.changes, plan_sure hplan, ht.rewrites plan hplan, by rw [hs.step_eq hplan]⟩

/-- A container that was given other content is alone on its cell. -/
theorem Sound.isUnique_of_rewrites (hs : s.Sound) {kind : Kind} {of : Name} {names : List Name}
    {changes : List (Change p)} (hsure : Sure s.reading names changes)
    (h : Rewrites s.reading kind of changes) :
    ∃ d, (s.applyAll changes).2.cellOf kind of = .ok d ∧
      (s.applyAll changes).2.isUnique d = true := by
  cases h with
  | create x =>
    refine ⟨s.cells.size, cellOf_eq_ok.2 ⟨?_, x.owned, ?_⟩,
      hs.accounted.isUnique_allocate of (.ofPayload x)⟩
    · exact (find?_allocate of of _ _).trans (if_pos rfl)
    · exact (payload?_allocate of _ _).trans (congrArg some (payload_ofPayload x))
  | @edit run x found pattern =>
    cases hsure with
    | quiet quiet => cases quiet _ List.mem_cons_self
    | @edit _ _ _ _ e _ succeeds mem pattern_mem =>
      have hpattern : ∀ y, e.pattern = some y → of ≠ y.1 :=
        fun y hy heq => pattern _ e y succeeds hy heq.symm
      have ⟨hedit, _, hplain⟩ := hs.edit_plain succeeds
      have hstep : (s.applyAll [.edit of run]).2 = (s.makeOwn of).settle of e := by
        simp only [Store.applyAll, Store.apply, hedit]
      obtain ⟨c, hc, hpayload⟩ := value?_eq_container.1 found
      obtain ⟨d, hd, hu⟩ := hs.accounted.isUnique_makeOwn hc
      have hfind : ((s.makeOwn of).settle of e).find? of = some (.container kind d) := by
        rw [find?_settle_of_ne hpattern, hd]
      rw [hstep]
      -- the cell is the one that it got for itself, with what the edit made as its content
      refine ⟨d, cellOf_eq_ok.2 ⟨hfind, e.payload.owned, ?_⟩, ?_⟩
      · have hitem : s.plain.item? of = some (.container kind x) := by
          simp [plain, hc, item, hpayload]
        refine payload?_of_item? hfind ?_
        rw [hplain]
        exact Plain.item?_settle (Plain.item?_own hitem) hpattern
      · -- it was alone before the edit was settled, and settling brings nobody to its cell
        have hacc : ((s.makeOwn of).settle of e).Accounted :=
          (hs.accounted.makeOwn of).settle of e
        refine (hacc.isUnique_iff hfind).2 fun n hn => ?_
        exact ((hs.makeOwn of).accounted.isUnique_iff hd).1 hu n (on_of_on_settle hn)

end Store

/-! ### Joining a cell -/

/-- Whether a step makes a new reference to the cell of a variable, and of which sort. -/
inductive Step.Joins : Step p → Name → Name → (Binding p → Option (Binding p)) → Prop
  | clone (kind : Kind) (of out : Name) :
      Joins (.act (.sharing (.clone kind of out))) of out (Binding.toContainer? kind)
  | adopt (kind : Kind) (owner out : Name) :
      Joins (.act (.sharing (.adopt kind owner out))) owner out (Binding.toContainer? kind)
  | cloneShared (of out : Name) :
      Joins (.act (.sharing (.cloneShared of out))) of out Binding.toShared?
  | observe (of out : Name) : Joins (.act (.sharing (.observe of out))) of out Binding.toObserver?

namespace Store

variable {s : Store p}

theorem find?_of_shared {name : Name} {x : Payload p} (h : s.reading.shared name = .ok x) :
    ∃ c, s.find? name = some (.shared c) := by
  have hvalue := Reading.shared_eq_ok.1 h
  obtain ⟨b, hb, hbx⟩ := Option.bind_eq_some_iff.1 hvalue
  cases b with
  | shared c => exact ⟨c, hb⟩
  | container k c =>
    obtain ⟨_, -, hne⟩ := Option.map_eq_some_iff.1 hbx
    cases hne
  | observer c | pattern y | buffer source => cases hbx

theorem derive_of_find? {name source : Name} {f : Binding p → Option (Binding p)}
    {b b' : Binding p} (hb : s.find? source = some b) (hf : f b = some b') :
    s.derive name source f = s.bind name b' := by
  simp only [derive, hb, Option.bind_some, hf]

/-- A step that joins a cell binds one name to it and does nothing else. -/
theorem Sound.step_of_joins (hs : s.Sound) {t : Step p} {source out : Name}
    {f : Binding p → Option (Binding p)} (h : t.Joins source out f) {answer : Answer p}
    (hok : (s.step t).1 = .ok answer) :
    ∃ b b', s.find? source = some b ∧ f b = some b' ∧ b'.cell? = b.cell? ∧
      (s.step t).2 = s.bind out b' := by
  cases hplan : s.plan t with
  | error failure =>
    rw [step_of_error hplan] at hok
    cases hok
  | ok plan =>
    rw [hs.step_eq hplan]
    cases h with
    | clone kind of out =>
      obtain ⟨x, hx, hrest⟩ := Attempt.bind_eq_ok.1 hplan
      obtain rfl := Except.ok.inj hrest
      obtain ⟨c, hc, -⟩ := value?_eq_container.1 (Reading.container_eq_ok.1 hx)
      exact ⟨_, .container kind c, hc, rfl, rfl, derive_of_find? hc rfl⟩
    | adopt kind owner out =>
      obtain ⟨x, hx, hrest⟩ := Attempt.bind_eq_ok.1 hplan
      obtain rfl := Except.ok.inj (Attempt.seq_eq_ok.1 hrest).2
      obtain ⟨c, hc⟩ := find?_of_shared hx
      exact ⟨_, .container kind c, hc, rfl, rfl, derive_of_find? hc rfl⟩
    | cloneShared of out =>
      obtain ⟨x, hx, hrest⟩ := Attempt.bind_eq_ok.1 hplan
      obtain rfl := Except.ok.inj hrest
      obtain ⟨c, hc⟩ := find?_of_shared hx
      exact ⟨_, .shared c, hc, rfl, rfl, derive_of_find? hc rfl⟩
    | observe of out =>
      obtain ⟨x, hx, hrest⟩ := Attempt.bind_eq_ok.1 hplan
      obtain rfl := Except.ok.inj hrest
      obtain ⟨c, hc⟩ := find?_of_shared hx
      exact ⟨_, .observer c, hc, rfl, rfl, derive_of_find? hc rfl⟩

/-! ### The laws -/

/-- What sharing comes to in a store. -/
structure SharingLaws (s : Store p) : Prop where
  /-- A container says that it is unique exactly when no other variable is on its cell. -/
  isUnique : ∀ kind of c, s.cellOf kind of = .ok c →
    ∃ b, s.answer (.isUnique kind of) = .ok (.bool b) ∧ (b = true ↔ ∀ n, s.On c n → n = of)
  /-- The owners that it counts are the variables that own its cell. -/
  ownerCount : ∀ kind of c, s.cellOf kind of = .ok c →
    s.answer (.ownerCount kind of) = .ok (.count (s.live (owns c)))
  /-- A container that was changed is unique. -/
  mutated : ∀ t kind of answer, t.Mutates s.reading kind of → (s.step t).1 = .ok answer →
    (s.step t).2.answer (.isUnique kind of) = .ok (.bool true)
  /-- How other containers share is not changed, whatever the step. -/
  shares : ∀ (t : Step p) kind x y, x ∉ t.binds → y ∉ t.binds →
    (s.step t).2.answer (.shares kind x y) = s.answer (.shares kind x y)
  /-- A step moves no variable but those that it binds. -/
  stays : ∀ (t : Step p) n, n ∉ t.binds → (s.step t).2.find? n = s.find? n
  /-- A step that only reads leaves every variable on its cell. -/
  read : ∀ t : Step p, t.binds = [] → ∀ n, (s.step t).2.find? n = s.find? n
  /-- A step that fails leaves everything. -/
  failed : ∀ t failure, (s.step t).1 = .error failure → (s.step t).2 = s
  /-- A new reference is on the cell of its source, and every other variable stays where it is. -/
  joined : ∀ t source out f answer, Step.Joins t source out f → (s.step t).1 = .ok answer →
    ∃ b b', s.find? source = some b ∧ f b = some b' ∧ b'.cell? = b.cell? ∧
      ∀ n, (s.step t).2.find? n = if n = out then some b' else s.find? n

/-- Sharing is accounted for in every store that can be reached. -/
theorem Reachable.sharingLaws (h : s.Reachable) : s.SharingLaws := by
  have hs := h.sound
  constructor
  case isUnique =>
    intro kind of c hc
    refine ⟨s.isUnique c, by rw [answer, hc]; rfl, ?_⟩
    exact hs.accounted.isUnique_iff (cellOf_eq_ok.1 hc).1
  case ownerCount =>
    intro kind of c hc
    rw [answer, hc, ← hs.accounted.strong_eq c]
    rfl
  case mutated =>
    intro t kind of answer ht hok
    obtain ⟨names, changes, hsure, hrewrites, hstep⟩ := hs.exists_rewrites ht hok
    obtain ⟨d, hd, hu⟩ := hs.isUnique_of_rewrites hsure hrewrites
    rw [hstep, Store.answer, hd, ← hu]
    rfl
  case shares =>
    intro t kind x y hx hy
    exact hs.answer_shares_step hx hy kind
  case stays =>
    intro t n hn
    exact (hs.step_frame hn).1
  case read =>
    intro t ht n
    exact (hs.step_frame (by rw [ht]; exact List.not_mem_nil)).1
  case failed =>
    intro t failure hfail
    exact hs.step_of_failed hfail
  case joined =>
    intro t source out f answer ht hok
    obtain ⟨b, b', hb, hf, hcell, hstep⟩ := hs.step_of_joins ht hok
    exact ⟨b, b', hb, hf, hcell, fun n => by rw [hstep, find?_bind]⟩

/-- A vector and a clone of it, on one cell. -/
def clonedPair : Store .double :=
  ((({} : Store .double).step (.act (.vector (.create .dense "v" #[.zero])))).2.step
    (.act (.sharing (.clone .vector "v" "w")))).2

theorem sharingLaws_clonedPair : clonedPair.Reachable ∧ clonedPair.cellOf .vector "v" = .ok 0 ∧
    clonedPair.strong 0 = 2 ∧ clonedPair.SharingLaws :=
  have hreachable : clonedPair.Reachable := .step _ (.step _ .start)
  ⟨hreachable, rfl, by decide, Reachable.sharingLaws hreachable⟩

end Store

end CowArrays
