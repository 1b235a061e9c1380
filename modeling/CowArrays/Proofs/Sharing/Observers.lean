import CowArrays.Proofs.Sharing.Holding

/-!
Observers never see a write. What an observer is upgraded to is what it was made of, however many steps
are between; it is alive exactly while its cell is owned; and a container that is changed leaves the
cell to its observers.
-/

namespace CowArrays

variable {p : Precision}

namespace Store

variable {s t : Store p} {c : CellId}

/-! ### Upgrades -/

def Owner (s : Store p) (c : CellId) (n : Name) : Prop :=
  ∃ b, s.find? n = some b ∧ b.owned? = some c

theorem Sound.strong_ne_zero_iff (hs : s.Sound) : s.strong c ≠ 0 ↔ ∃ n, s.Owner c n := by
  rw [hs.accounted.strong_eq, ne_eq, live_eq_zero_iff hs.accounted.distinct]
  constructor
  · intro h
    by_contra hno
    refine h fun n b hb => eq_false_of_ne_true fun howns => ?_
    exact hno ⟨n, b, hb, beq_iff_eq.1 howns⟩
  · rintro ⟨n, b, hb, howned⟩ h
    exact Bool.false_ne_true ((h n b hb).symm.trans (beq_iff_eq.2 howned))

theorem shared_of_find? {n : Name} (hn : s.find? n = some (.shared c)) {x : Payload p}
    (hx : s.payload? c = some x) : s.reading.shared n = .ok x := by
  refine Reading.shared_eq_ok.2 ?_
  show (s.find? n).bind s.value = _
  simp [hn, value, hx]

theorem payload?_of_shared {n : Name} (hn : s.find? n = some (.shared c)) {x : Payload p}
    (hx : s.reading.shared n = .ok x) : s.payload? c = some x := by
  have hvalue : (s.find? n).bind s.value = some (.shared x) := Reading.shared_eq_ok.1 hx
  rw [hn] at hvalue
  obtain ⟨y, hy, heq⟩ := Option.map_eq_some_iff.1 hvalue
  rwa [Value.shared.inj heq] at hy

/-- What an observer of a cell with owners is upgraded to has what is there. -/
theorem Sound.step_upgrade (hs : s.Sound) {m : Name} (hm : s.find? m = some (.observer c))
    {x : Payload p} (hx : s.payload? c = some x) (howner : ∃ n, s.Owner c n) (target : Name) :
    ∃ u, s.step (.upgrade m target) = (.ok .done, u) ∧ u.reading.shared target = .ok x := by
  refine ⟨_, step_upgrade_of_alive hm (hs.strong_ne_zero_iff.2 howner) target, ?_⟩
  have htarget : (s.bind target (.shared c)).find? target = some (.shared c) :=
    (find?_bind target target _).trans (if_pos rfl)
  exact shared_of_find? htarget ((extends_bind target (.shared c)).payload? hs.backed hx)

/-! ### Changed containers -/

/-- A container that is given other content, and is not alone on its cell, is on a fresh cell then.
No other variable moves to a cell. -/
theorem Sound.find?_of_rewrites (hs : s.Sound) {kind : Kind} {of m : Name} {names : List Name}
    {changes : List (Change p)} (hsure : Sure s.reading names changes)
    (h : Rewrites s.reading kind of changes) (hof : s.find? of = some (.container kind c))
    (hm : m ≠ of) (hon : s.On c m) :
    (s.applyAll changes).2.find? of = some (.container kind s.cells.size) ∧
      ∀ n b, n ≠ of → (s.applyAll changes).2.find? n = some b →
        b.cell? = none ∨ s.find? n = some b := by
  cases h with
  | create x =>
    refine ⟨(find?_allocate of of _ _).trans (if_pos rfl), fun n b hn hb => .inr ?_⟩
    exact ((find?_allocate of n _ _).trans (if_neg hn)).symm.trans hb
  | @edit run x found pattern =>
    cases hsure with
    | quiet quiet => cases quiet _ List.mem_cons_self
    | @edit _ _ _ y e found' succeeds mem pattern_mem =>
      have hpattern : ∀ y, e.pattern = some y → of ≠ y.1 :=
        fun y hy heq => pattern _ e y succeeds hy heq.symm
      have hstep : (s.applyAll [.edit of run]).2 = (s.makeOwn of).settle of e := by
        simp only [Store.applyAll, Store.apply, (hs.edit_plain succeeds).1]
      have hfresh : (s.makeOwn of).find? of = some (.container kind s.cells.size) := by
        rcases hs.accounted.makeUnique_cases hof with ⟨hunique, -⟩ | ⟨z, -, heq⟩
        · exact absurd ((hs.accounted.isUnique_iff hof).1 hunique m hon) hm
        · rw [Store.makeOwn, find?_modifyContent, heq, find?_allocate, if_pos rfl]
      rw [hstep]
      refine ⟨(find?_settle_of_ne hpattern).trans hfresh, fun n b hn hb => ?_⟩
      by_cases hout : ∃ y, e.pattern = some y ∧ n = y.1
      · -- this is the variable of the pattern that the edit made
        obtain ⟨y, hy, rfl⟩ := hout
        simp only [settle, hy, setPattern, find?_bind, if_pos] at hb
        exact .inl (Option.some.inj hb ▸ rfl)
      · have hne : ∀ y, e.pattern = some y → n ≠ y.1 := fun y hy heq => hout ⟨y, hy, heq⟩
        rw [find?_settle_of_ne hne, find?_makeOwn_of_ne hn] at hb
        exact .inr hb

/-- Nobody owns a cell any more that its only owner has moved from. -/
theorem Sound.unowned_of_rewrites (hs : s.Sound) {kind : Kind} {of m : Name} {names : List Name}
    {changes : List (Change p)} (hsure : Sure s.reading names changes)
    (h : Rewrites s.reading kind of changes) (hof : s.find? of = some (.container kind c))
    (hm : m ≠ of) (hon : s.On c m) (halone : ∀ n, s.Owner c n → n = of) (n : Name) :
    ¬(s.applyAll changes).2.Owner c n := by
  obtain ⟨hfresh, hothers⟩ := hs.find?_of_rewrites hsure h hof hm hon
  rintro ⟨b, hb, howned⟩
  by_cases hn : n = of
  · rw [hn, hfresh] at hb
    obtain rfl := Option.some.inj hb
    exact absurd (Option.some.inj howned) (Nat.ne_of_gt (hs.accounted.lt_of_on (on_of_find? hof rfl)))
  · -- another variable on the cell was there before, so it was an owner then
    rcases hothers n b hn hb with hcell | hbefore
    · rw [Binding.cell?, howned] at hcell
      cases hcell
    · exact hn (halone n ⟨b, hbefore, howned⟩)

/-! ### The laws -/

/-- What holds of observers in a store. -/
structure ObserverLaws (s : Store p) : Prop where
  /-- A container joins the cell of a reference where it can be over what is there, and a handle can
  be over anything. So vectors, matrices and handles meet on one cell. -/
  adopted : ∀ kind source out c x, s.find? source = some (.shared c) →
    s.reading.shared source = .ok x → kind.admits x = true →
    ∃ u, s.step (.act (.sharing (.adopt kind source out))) = (.ok .done, u) ∧
      u.find? out = some (.container kind c) ∧ u.payload? c = some x
  /-- An observer is made on the cell of its source. Whatever steps follow, what it is upgraded to
  has what the source had then, bit for bit, and so has every other observer of the cell. -/
  kept : ∀ source out c x, s.find? source = some (.shared c) → s.reading.shared source = .ok x →
    ∃ u, s.step (.act (.sharing (.observe source out))) = (.ok .done, u) ∧
      u.find? out = some (.observer c) ∧
      ∀ steps m target, (u.after steps).find? m = some (.observer c) →
        ((u.after steps).step (.upgrade m target)).1 = .ok .done →
        ((u.after steps).step (.upgrade m target)).2.reading.shared target = .ok x
  /-- An observer is alive exactly while a variable owns its cell. -/
  alive : ∀ m c target, s.find? m = some (.observer c) →
    ((∃ n, s.Owner c n) ∧ (s.step (.upgrade m target)).1 = .ok .done) ∨
      ((∀ n, ¬s.Owner c n) ∧ s.step (.upgrade m target) = (.ok .absent, s))
  /-- A container that is changed, and is not alone on its cell, moves to a cell that was never made
  before, with what the step makes of its value. -/
  moved : ∀ (a : Action p) kind of c m answer, (Step.act a).Mutates s.reading kind of →
    s.find? of = some (.container kind c) → m ≠ of → s.On c m → (s.step (.act a)).1 = .ok answer →
    ∃ d x, s.cells.size ≤ d ∧ (s.step (.act a)).2.find? of = some (.container kind d) ∧
      (s.step (.act a)).2.payload? d = some x ∧
      (s.plain.act a).2.item? of = some (.container kind x)
  /-- If it was the only owner of its cell, the observers of the cell stay, and are dead. -/
  dead : ∀ (a : Action p) kind of c m answer, (Step.act a).Mutates s.reading kind of →
    s.find? of = some (.container kind c) → s.find? m = some (.observer c) →
    (∀ n, s.Owner c n → n = of) → (s.step (.act a)).1 = .ok answer →
    (∀ n, n ∉ a.binds → (s.step (.act a)).2.find? n = s.find? n) ∧
      ∀ n target, (s.step (.act a)).2.find? n = some (.observer c) →
        (s.step (.act a)).2.step (.upgrade n target) = (.ok .absent, (s.step (.act a)).2)
  /-- Other owners stay where they are, whatever the step, and the observers with them. -/
  left : ∀ (t : Step p) c n m target x, s.Owner c n → n ∉ t.binds →
    s.find? m = some (.observer c) → m ∉ t.binds → s.payload? c = some x →
    (s.step t).2.Owner c n ∧ (s.step t).2.find? m = some (.observer c) ∧
      ∃ u, (s.step t).2.step (.upgrade m target) = (.ok .done, u) ∧
        u.reading.shared target = .ok x

theorem Sound.step_observe (hs : s.Sound) {source : Name} (hsource : s.find? source = some (.shared c))
    {x : Payload p} (hx : s.reading.shared source = .ok x) (out : Name) :
    s.step (.act (.sharing (.observe source out))) = (.ok .done, s.bind out (.observer c)) := by
  have hplan : s.plan (.act (.sharing (.observe source out))) =
      .ok (.change [.observe out source]) := by
    show (SharingStep.observe source out).plan s.reading = _
    rw [SharingStep.plan, hx]
    rfl
  have hderive : s.derive out source Binding.toObserver? = s.bind out (.observer c) :=
    derive_of_find? hsource rfl
  rw [hs.step_eq hplan, ← hderive]
  rfl

theorem Sound.step_adopt (hs : s.Sound) {source : Name} (hsource : s.find? source = some (.shared c))
    {x : Payload p} (hx : s.reading.shared source = .ok x) {kind : Kind}
    (hadmits : kind.admits x = true) (out : Name) :
    s.step (.act (.sharing (.adopt kind source out))) =
      (.ok .done, s.bind out (.container kind c)) := by
  have hplan : s.plan (.act (.sharing (.adopt kind source out))) =
      .ok (.change [.join kind out source]) := by
    show (SharingStep.adopt kind source out).plan s.reading = _
    rw [SharingStep.plan, hx, Attempt.ok_bind, checkAdmits, if_pos hadmits]
    rfl
  have hderive : s.derive out source (Binding.toContainer? kind) = s.bind out (.container kind c) :=
    derive_of_find? hsource rfl
  rw [hs.step_eq hplan, ← hderive]
  rfl

theorem Sound.step_upgrade_of_unowned (hs : s.Sound) {m : Name}
    (hm : s.find? m = some (.observer c)) (hno : ∀ n, ¬s.Owner c n) (target : Name) :
    s.step (.upgrade m target) = (.ok .absent, s) := by
  refine step_upgrade_of_dead hm ?_ target
  by_contra hne
  exact (hs.strong_ne_zero_iff.1 hne).elim hno

/-- What an observer is upgraded to behind some steps was on its cell before them. -/
theorem Reachable.upgrade_after (h : s.Reachable) {x : Payload p} (hx : s.payload? c = some x)
    {steps : List (Step p)} {m target : Name} (hm : (s.after steps).find? m = some (.observer c))
    (hdone : ((s.after steps).step (.upgrade m target)).1 = .ok .done) :
    ((s.after steps).step (.upgrade m target)).2.reading.shared target = .ok x := by
  have hafter := (h.after steps).sound
  -- the cell is still held, so its content is what it was
  have hkept := h.sound.payload?_after hx ⟨m, _, hm, .inr rfl⟩
  have howner : ∃ n, (s.after steps).Owner c n := by
    by_contra hno
    rw [hafter.step_upgrade_of_unowned hm (fun n hn => hno ⟨n, hn⟩) target] at hdone
    cases hdone
  obtain ⟨u, hu, hshared⟩ := hafter.step_upgrade hm hkept howner target
  rwa [hu]

/-- Observers never see a write. -/
theorem Reachable.observerLaws (h : s.Reachable) : s.ObserverLaws := by
  have hs := h.sound
  constructor
  case adopted =>
    intro kind source out c x hsource hx hadmits
    refine ⟨_, hs.step_adopt hsource hx hadmits out, (find?_bind out out _).trans (if_pos rfl), ?_⟩
    exact (extends_bind out _).payload? hs.backed (payload?_of_shared hsource hx)
  case kept =>
    intro source out c x hsource hx
    have hstep := hs.step_observe hsource hx out
    refine ⟨_, hstep, (find?_bind out out _).trans (if_pos rfl), fun steps m target hm hdone => ?_⟩
    have hu : (s.bind out (.observer c)).Reachable := by
      have hnext := h.step (.act (.sharing (.observe source out)))
      rwa [hstep] at hnext
    have hpayload : (s.bind out (.observer c)).payload? c = some x :=
      (extends_bind out (.observer c)).payload? hs.backed (payload?_of_shared hsource hx)
    exact hu.upgrade_after hpayload hm hdone
  case alive =>
    intro m c target hm
    by_cases howner : ∃ n, s.Owner c n
    · obtain ⟨x, hx⟩ := hs.payload?_of_on (on_of_find? hm rfl)
      obtain ⟨u, hu, -⟩ := hs.step_upgrade hm hx howner target
      exact .inl ⟨howner, by rw [hu]⟩
    · have hno (n : Name) (hn : s.Owner c n) : False := howner ⟨n, hn⟩
      exact .inr ⟨hno, hs.step_upgrade_of_unowned hm hno target⟩
  case moved =>
    intro a kind of c m answer ht hof hm hon hok
    obtain ⟨names, changes, hsure, hrewrites, hstep⟩ := hs.exists_rewrites ht hok
    obtain ⟨hfresh, -⟩ := hs.find?_of_rewrites hsure hrewrites hof hm hon
    rw [← hstep] at hfresh
    obtain ⟨x, hx⟩ := (hs.step (.act a)).payload?_of_on (on_of_find? hfresh rfl)
    refine ⟨_, x, Nat.le_refl _, hfresh, hx, ?_⟩
    rw [hs.plain_act a]
    simp [plain, hfresh, item, hx]
  case dead =>
    intro a kind of c m answer ht hof hm halone hok
    obtain ⟨names, changes, hsure, hrewrites, hstep⟩ := hs.exists_rewrites ht hok
    have hne : m ≠ of := by
      rintro rfl
      cases hof.symm.trans hm
    have hunowned := hs.unowned_of_rewrites hsure hrewrites hof hne (on_of_find? hm rfl) halone
    rw [← hstep] at hunowned
    exact ⟨fun n hn => (hs.step_frame (t := .act a) hn).1,
      fun n target hn => (hs.step (.act a)).step_upgrade_of_unowned hn hunowned target⟩
  case left =>
    intro t c n m target x hn hnt hm hmt hx
    obtain ⟨b, hb, howned⟩ := hn
    have hb' := (hs.step_frame hnt).1.trans hb
    have hm' := (hs.step_frame hmt).1.trans hm
    have hx' := hs.payload?_step ⟨m, _, hm, .inr rfl⟩ hx t
    exact ⟨⟨b, hb', howned⟩, hm', (hs.step t).step_upgrade hm' hx' ⟨n, b, hb', howned⟩ target⟩

/-- A vector, a handle and an observer on one cell, left without the reference that they were made
of. -/
def watchedVector : Store .double :=
  Store.after {} [.act (.sharing (.createShared "a" (.vector #[.unit]))),
    .act (.sharing (.adopt .vector "a" "v")), .act (.sharing (.adopt .handle "a" "h")),
    .act (.sharing (.observe "a" "w")), .act (.sharing (.drop "a"))]

theorem observerLaws_watchedVector :
    watchedVector.Reachable ∧ watchedVector.find? "v" = some (.container .vector 0) ∧
      watchedVector.find? "h" = some (.container .handle 0) ∧
      watchedVector.find? "w" = some (.observer 0) ∧ watchedVector.strong 0 = 2 ∧
        watchedVector.ObserverLaws :=
  have hreachable : watchedVector.Reachable := Reachable.start.after _
  ⟨hreachable, rfl, rfl, rfl, by decide, Reachable.observerLaws hreachable⟩

/-- The handle, left alone with the observer by a change of the vector, leaves it behind when it is
written to. -/
example : (watchedVector.run [.act (.vector (.edit .dense "v" (.scale .zero))), .upgrade "w" "b",
    .act (.sharing (.drop "b")), .act (.handle (.write "h" (.vector (·.scale .zero)))),
    .upgrade "w" "b"]).map Prod.fst = [.ok .done, .ok .done, .ok .done, .ok .done, .ok .absent] := by
  rfl

end Store
end CowArrays
