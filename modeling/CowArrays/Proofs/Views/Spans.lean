import CowArrays.Proofs.Views.Plans

/-!
Which span each container views, and what a step does to that. A name becomes a view when it is made
one, cloned from one or renamed from one, and it stays a view of the same span until a step binds
it.
-/

namespace CowArrays

variable {p : Precision}

/-! ### Actions on plain values -/

namespace Plain

variable {s : Plain p}

theorem Hidden.act (hs : s.Hidden) (a : Action p) : (s.act a).2.Hidden := by
  cases hplan : a.plan s.reading with
  | error failure => rwa [act_of_error hplan]
  | ok plan =>
    rw [act_of_ok hplan]
    exact (a.plan_leaves hs plan hplan).hidden

theorem Hidden.owns_act (hs : s.Hidden) {a : Action p} {answer : Answer p}
    (h : (s.act a).1 = .ok answer) {n : Name} (hn : n ∈ a.unviews) : (s.act a).2.Owns n := by
  cases hplan : a.plan s.reading with
  | error failure =>
    rw [act_of_error hplan] at h
    cases h
  | ok plan =>
    rw [act_of_ok hplan]
    exact (a.plan_leaves hs plan hplan).owns n hn

theorem Hidden.file?_act (hs : s.Hidden) (a : Action p) {f : Name} (hf : f ∉ a.writes) :
    (s.act a).2.file? f = s.file? f := by
  cases hplan : a.plan s.reading with
  | error failure => rw [act_of_error hplan]
  | ok plan =>
    rw [act_of_ok hplan]
    exact (a.plan_leaves hs plan hplan).file f hf

theorem Hidden.takes (hs : s.Hidden) {t : Step p} {answer : Attempt (Answer p)} {u : Plain p}
    (h : s.Takes t answer u) : u.Hidden := by
  cases h with
  | act a => exact hs.act a
  | ask q | gone of out x saw | unknown of out saw => exact hs
  | alive of out x saw =>
    have hown : x.IsOwn := by
      rcases hs of _ saw with ⟨_, y, hy⟩ | hown
      · cases hy
      · exact hown x rfl
    exact hs.set (.inr (Item.isOwn_shared hown))

end Plain

namespace Store

variable {s t : Store p}

/-- No reference that the caller holds is to a view. -/
theorem Reachable.hidden (h : s.Reachable) : s.plain.Hidden := by
  induction h with
  | start => exact nofun
  | step t hs ih => exact ih.takes (hs.sound.takes t)

/-! ### Steps that come to nothing -/

/-- Whether a step goes through, and finds what it is about. -/
def Completes (s : Store p) (t : Step p) : Prop :=
  ∃ answer, (s.step t).1 = .ok answer ∧ answer ≠ .absent

theorem Reachable.step_of_absent (h : s.Reachable) {t : Step p} (ht : (s.step t).1 = .ok .absent) :
    (s.step t).2 = s := by
  have hs := h.sound
  cases t with
  | act a =>
    cases hplan : s.plan (.act a) with
    | error failure => rw [step_of_error hplan]
    | ok plan =>
      rw [hs.step_eq hplan] at ht ⊢
      have hleaves := a.plan_leaves h.hidden plan (hs.reading_plain ▸ hplan)
      rw [hleaves.idle (Except.ok.inj ht)]
      rfl
  | ask q => rw [step_ask]
  | upgrade of out =>
    by_cases hobserver : ∃ c, s.find? of = some (.observer c)
    · obtain ⟨c, hc⟩ := hobserver
      by_cases hdead : s.strong c = 0
      · rw [step_upgrade_of_dead hc hdead]
      · rw [step_upgrade_of_alive hc hdead] at ht
        cases ht
    · rw [step_upgrade_of_not_observer fun c hc => hobserver ⟨c, hc⟩]

theorem Reachable.step_of_not_completes (h : s.Reachable) {t : Step p} (ht : ¬s.Completes t) :
    (s.step t).2 = s := by
  cases hstep : (s.step t).1 with
  | error failure => exact h.sound.step_of_failed hstep
  | ok answer =>
    by_cases ha : answer = .absent
    · exact h.step_of_absent (hstep.trans (congrArg Except.ok ha))
    · exact absurd ⟨answer, hstep, ha⟩ ht

/-! ### Spans -/

def viewOf? (s : Store p) (name : Name) : Option Span :=
  match s.find? name with
  | some (.container .mapped c) =>
    match s.content? c with
    | some (.mapped (.view span)) => some span
    | _ => none
  | _ => none

theorem viewOf?_eq_some {n : Name} {span : Span} : s.viewOf? n = some span ↔
    ∃ c, s.find? n = some (.container .mapped c) ∧ s.content? c = some (.mapped (.view span)) := by
  unfold viewOf?
  constructor
  · intro h
    split at h
    · rename_i c hc
      split at h
      · rename_i v hv
        exact ⟨c, hc, Option.some.inj h ▸ hv⟩
      · cases h
    · cases h
  · rintro ⟨c, hc, hx⟩
    simp only [hc, hx]

theorem viewOf?_congr {n m : Name} (hfind : t.find? m = s.find? n)
    (hcontent : ∀ kind c, s.find? n = some (.container kind c) → t.content? c = s.content? c) :
    t.viewOf? m = s.viewOf? n := by
  unfold viewOf?
  rw [hfind]
  split
  · rename_i c hc
    rw [hcontent _ c hc]
  · rfl

theorem mapped_of_viewOf? {n : Name} {span : Span} (h : s.viewOf? n = some span) :
    s.reading.mapped n =
      .ok (.ofOctets (s.octets span.source) span.offset span.count, true) := by
  obtain ⟨c, hc, hx⟩ := viewOf?_eq_some.1 h
  refine Reading.mapped_eq_ok.2 (value?_eq_container.2 ⟨c, hc, ?_⟩)
  rw [payload?_eq, hx]
  rfl

/-- A mapped vector says that it is a view exactly when it has a span. -/
theorem mapped_isView_iff {n : Name} {v : Line p} {isView : Bool}
    (h : s.reading.mapped n = .ok (v, isView)) : isView = true ↔ ∃ span, s.viewOf? n = some span := by
  obtain ⟨c, hc, hx⟩ := value?_eq_container.1 (Reading.mapped_eq_ok.1 h)
  rw [payload?_eq] at hx
  obtain ⟨x, hcontent, hpayload⟩ := Option.map_eq_some_iff.1 hx
  cases x with
  | mapped m =>
    obtain ⟨-, rfl⟩ := Payload.mapped.inj hpayload
    cases m with
    | view span => exact ⟨fun _ => ⟨span, viewOf?_eq_some.2 ⟨c, hc, hcontent⟩⟩, fun _ => rfl⟩
    | own w =>
      refine ⟨nofun, fun ⟨span, hspan⟩ => ?_⟩
      have hmapped := mapped_of_viewOf? hspan
      rw [h] at hmapped
      exact congrArg Prod.snd (Except.ok.inj hmapped)
  | vector w | matrix g | list w => cases hpayload

theorem Sound.viewOf?_of_owns (hs : s.Sound) {n : Name} (h : s.plain.Owns n) :
    s.viewOf? n = none := by
  refine Option.eq_none_iff_forall_ne_some.2 fun span hspan => ?_
  have hvalue := Reading.mapped_eq_ok.1 (mapped_of_viewOf? hspan)
  rw [← hs.reading_plain] at hvalue
  exact absurd (h _ (Plain.item?_of_value? hvalue) _ rfl) nofun

/-- A step leaves alone the views that it does not bind. -/
theorem Sound.viewOf?_step_of_not_mem (hs : s.Sound) {u : Step p} {n : Name} (hn : n ∉ u.binds) :
    (s.step u).2.viewOf? n = s.viewOf? n := by
  refine viewOf?_congr (hs.step_frame hn).1 fun kind c hc => ?_
  obtain ⟨x, hx⟩ := hs.content?_of_container hc
  rw [hx, hs.content?_step (fun _ _ _ => hn) (on_of_find? hc rfl) hx]

end Store

/-! ### Steps that leave a view -/

/-- Whether a step, if it completes, leaves a name as a view of a span. -/
inductive Step.Views (s : Store p) : Step p → Name → Span → Prop
  /-- A view of memory of the caller. -/
  | buffer {buffer out : Name} {start stop : Nat} {source : SourceId}
      (found : s.find? buffer = some (.buffer source)) :
      Views s (.act (.vector (.viewBuffer buffer start stop out))) out
        ⟨source, start * p.byteSize, stop - start⟩
  /-- A view of octets that are lent on this occasion. -/
  | octets {slice : Slice} {count : Nat} {out : Name} (fits : castCount p slice = .ok count) :
      Views s (.act (.vector (.viewOctets slice out))) out ⟨s.sources.size, slice.offset, count⟩
  /-- A view of what a file contains at the time. -/
  | file {file out : Name} {source : SourceId} {count : Nat}
      (found : s.files.lookup file = some source)
      (fits : castCount p (.all (s.octets source)) = .ok count) :
      Views s (.act (.vector (.viewFile file out))) out ⟨source, 0, count⟩
  /-- A clone of a view, on its cell. -/
  | clone {kind : Kind} {of out : Name} {span : Span} (was : s.viewOf? of = some span) :
      Views s (.act (.sharing (.clone kind of out))) out span
  /-- The view itself, under another name. -/
  | rename {of target : Name} {span : Span} (was : s.viewOf? of = some span) :
      Views s (.act (.sharing (.rename of target))) target span

theorem Step.Views.mem_binds {s : Store p} {u : Step p} {n : Name} {span : Span} (h : u.Views s n span) :
    n ∈ u.binds := by
  cases h with
  | buffer found | octets fits | file found fits | clone was => exact List.mem_cons_self
  | @rename of target span was => exact List.mem_cons_of_mem of List.mem_cons_self

namespace Store

variable {s t : Store p}

theorem viewOf?_view {origin : Origin} {source : SourceId} (hr : s.resolve origin = some (source, t))
    (out : Name) (offset count : Nat) :
    (s.applyAll [.view out origin offset count]).2.viewOf? out = some ⟨source, offset, count⟩ := by
  simp only [Store.applyAll, Store.apply, hr]
  refine viewOf?_eq_some.2 ⟨t.cells.size, ?_, ?_⟩
  · rw [find?_allocate, if_pos rfl]
  · rw [content?_allocate, if_pos rfl]

theorem find?_of_buffer {name : Name} {v : Line p} (h : s.reading.buffer name = .ok v) :
    ∃ source, s.find? name = some (.buffer source) := by
  have hvalue : (s.find? name).bind s.value = some (.buffer v) := Reading.buffer_eq_ok.1 h
  obtain ⟨b, hb, hbv⟩ := Option.bind_eq_some_iff.1 hvalue
  cases b with
  | buffer source => exact ⟨source, hb⟩
  | container kind c | shared c =>
    obtain ⟨_, -, hne⟩ := Option.map_eq_some_iff.1 hbv
    cases hne
  | observer c | pattern y => cases hbv

theorem lookup_of_file {file : Name} {octets : Octets} (h : s.reading.file file = .ok octets) :
    ∃ source, s.files.lookup file = some source ∧ s.octets source = octets := by
  unfold Reading.file at h
  split at h
  · rename_i o ho
    obtain ⟨source, hsource, rfl⟩ := Option.map_eq_some_iff.1 ho
    exact ⟨source, hsource, Except.ok.inj h⟩
  · cases h

theorem Sound.viewOf?_clone (hs : s.Sound) {kind : Kind} {of out : Name} {answer : Answer p}
    (hok : (s.step (.act (.sharing (.clone kind of out)))).1 = .ok answer) :
    (s.step (.act (.sharing (.clone kind of out)))).2.viewOf? out = s.viewOf? of := by
  obtain ⟨plan, hplan⟩ := exists_plan_of_step hok
  obtain ⟨x, hx, -⟩ := Attempt.bind_eq_ok.1 hplan
  obtain ⟨c, hc, -⟩ := value?_eq_container.1 (Reading.container_eq_ok.1 hx)
  obtain ⟨b, b', hb, hbb, -, hstep⟩ := hs.step_of_joins (.clone kind of out) hok
  obtain rfl := Option.some.inj (hc.symm.trans hb)
  obtain rfl := Option.some.inj hbb
  rw [hstep]
  refine viewOf?_congr ?_ fun _ d _ => content?_bind out _ d
  rw [find?_bind, if_pos rfl, hc]

theorem viewOf?_rename {of : Name} {b : Binding p} (hb : s.find? of = some b) (target : Name) :
    (s.rename of target).viewOf? target = s.viewOf? of := by
  refine viewOf?_congr ?_ fun _ c _ => ?_
  · rw [find?_rename hb, if_pos rfl, hb]
  · simp [rename, hb, retain]

theorem viewOf?_of_find?_none {n : Name} (h : s.find? n = none) : s.viewOf? n = none := by
  simp only [viewOf?, h]

theorem Sound.step_rename (hs : s.Sound) {of : Name} {b : Binding p} (hb : s.find? of = some b)
    (target : Name) :
    s.step (.act (.sharing (.rename of target))) = (.ok .done, s.rename of target) := by
  have hplan : s.plan (.act (.sharing (.rename of target))) =
      .ok (.change [.rename of target]) := by
    obtain ⟨i, hi, -⟩ := hs.item?_of_find? hb
    have hvalue : s.reading.value? of = some i.value := by
      rw [← hs.reading_plain]
      exact congrArg (Option.map Item.value) hi
    simp only [Store.plan, Action.plan, SharingStep.plan, hvalue]
  exact hs.step_eq hplan

theorem step_rename_of_none {of : Name} (hb : s.find? of = none) (target : Name) :
    s.step (.act (.sharing (.rename of target))) = (.ok .absent, s) := by
  have hplan : s.plan (.act (.sharing (.rename of target))) = .ok (.tell .absent) := by
    have hvalue : s.reading.value? of = none := by
      show (s.find? of).bind s.value = none
      rw [hb]
      rfl
    simp only [Store.plan, Action.plan, SharingStep.plan, hvalue]
  exact step_of_ok hplan

/-- A step that goes through leaves the view that it is to leave. -/
theorem Sound.viewOf?_of_views (hs : s.Sound) {u : Step p} {answer : Answer p}
    (hok : (s.step u).1 = .ok answer) {n : Name} {span : Span} (h : u.Views s n span) :
    (s.step u).2.viewOf? n = some span := by
  obtain ⟨plan, hplan⟩ := exists_plan_of_step hok
  cases h with
  | @buffer buffer _ _ _ source found =>
    obtain ⟨v, -, hrest⟩ := Attempt.bind_eq_ok.1 hplan
    split at hrest
    · obtain rfl := Except.ok.inj hrest
      rw [hs.step_eq hplan]
      have hr : s.resolve (.buffer buffer) = some (source, s) := by simp only [Store.resolve, found]
      exact viewOf?_view hr n _ _
    · cases hrest
  | @octets slice count _ fits =>
    obtain ⟨count', hcount, hrest⟩ := Attempt.bind_eq_ok.1 hplan
    obtain rfl := Except.ok.inj hrest
    obtain rfl : count = count' := Except.ok.inj (fits.symm.trans hcount)
    rw [hs.step_eq hplan]
    have hr : s.resolve (.octets slice.whole) = some (s.addSource slice.whole) := rfl
    exact viewOf?_view hr n _ _
  | @file file _ source count found fits =>
    obtain ⟨o, ho, hrest⟩ := Attempt.bind_eq_ok.1 hplan
    obtain ⟨count', hcount, hrest⟩ := Attempt.bind_eq_ok.1 hrest
    obtain rfl := Except.ok.inj hrest
    obtain ⟨source', hsource, rfl⟩ := lookup_of_file ho
    obtain rfl : source = source' := Option.some.inj (found.symm.trans hsource)
    obtain rfl : count = count' := Except.ok.inj (fits.symm.trans hcount)
    rw [hs.step_eq hplan]
    have hr : s.resolve (.file file) = some (source, s) := by
      simp only [Store.resolve, found, Option.map_some]
    exact viewOf?_view hr n _ _
  | clone was => rw [hs.viewOf?_clone hok, was]
  | @rename of _ _ was =>
    obtain ⟨c, hc, -⟩ := viewOf?_eq_some.1 was
    rw [hs.step_rename hc, viewOf?_rename hc, was]

/-- What a rename that completes leaves as a view at one of its names is the view that it moved. -/
theorem Sound.views_rename (hs : s.Sound) {of target : Name}
    (hu : s.Completes (.act (.sharing (.rename of target)))) {n : Name}
    (hn : n = of ∨ n = target) {span : Span}
    (hview : (s.step (.act (.sharing (.rename of target)))).2.viewOf? n = some span) :
    (Step.act (.sharing (.rename of target))).Views s n span := by
  cases hb : s.find? of with
  | none =>
    obtain ⟨answer, hok, active⟩ := hu
    rw [step_rename_of_none hb] at hok
    exact absurd (Except.ok.inj hok).symm active
  | some b =>
    rw [hs.step_rename hb] at hview
    by_cases htarget : n = target
    · subst htarget
      rw [viewOf?_rename hb] at hview
      exact .rename hview
    · have hnone : (s.rename of target).find? n = none := by
        rw [find?_rename hb, if_neg htarget, if_pos (hn.resolve_right htarget)]
      rw [viewOf?_of_find?_none hnone] at hview
      cases hview

/-- An upgrade leaves a reference and not a container. -/
theorem viewOf?_upgrade {of out : Name} (hu : s.Completes (.upgrade of out)) :
    (s.step (.upgrade of out)).2.viewOf? out = none := by
  obtain ⟨answer, hok, active⟩ := hu
  by_cases hobserver : ∃ d, s.find? of = some (.observer d)
  · obtain ⟨d, hd⟩ := hobserver
    by_cases hdead : s.strong d = 0
    · rw [step_upgrade_of_dead hd hdead] at hok
      exact absurd (Except.ok.inj hok).symm active
    · rw [step_upgrade_of_alive hd hdead]
      simp only [viewOf?, find?_bind, if_pos]
  · rw [step_upgrade_of_not_observer fun d hd => hobserver ⟨d, hd⟩] at hok
    cases hok

/-- What a step that completes leaves as a view at a name that it binds, it was to leave. -/
theorem Reachable.views_of_viewOf? (h : s.Reachable) {u : Step p} (hu : s.Completes u) {n : Name}
    (hn : n ∈ u.binds) {span : Span} (hview : (s.step u).2.viewOf? n = some span) :
    ∃ span', u.Views s n span' := by
  have hs := h.sound
  obtain ⟨answer, hok, -⟩ := id hu
  obtain ⟨plan, hplan⟩ := exists_plan_of_step hok
  cases u with
  | ask q => cases hn
  | upgrade of out =>
    obtain rfl := List.mem_singleton.1 hn
    rw [viewOf?_upgrade hu] at hview
    cases hview
  | act a =>
    -- most steps leave no view at any name that they bind
    have howns (hu : n ∈ a.unviews) : False := by
      have hact := hs.plain_act a
      have hleft := h.hidden.owns_act (by rw [hact]; exact hok) hu
      rw [hact] at hleft
      rw [(hs.step (.act a)).viewOf?_of_owns hleft] at hview
      cases hview
    cases a with
    | matrix t | pattern t | handle t | memory t => exact (howns hn).elim
    | vector t =>
      cases t with
      | viewBuffer buffer start stop out =>
        obtain rfl := List.mem_singleton.1 hn
        obtain ⟨v, hv, -⟩ := Attempt.bind_eq_ok.1 hplan
        obtain ⟨source, hsource⟩ := find?_of_buffer hv
        exact ⟨_, .buffer hsource⟩
      | viewOctets slice out =>
        obtain rfl := List.mem_singleton.1 hn
        obtain ⟨count, hcount, -⟩ := Attempt.bind_eq_ok.1 hplan
        exact ⟨_, .octets hcount⟩
      | viewFile file out =>
        obtain rfl := List.mem_singleton.1 hn
        obtain ⟨o, ho, hrest⟩ := Attempt.bind_eq_ok.1 hplan
        obtain ⟨count, hcount, -⟩ := Attempt.bind_eq_ok.1 hrest
        obtain ⟨source, hsource, rfl⟩ := lookup_of_file ho
        exact ⟨_, .file hsource hcount⟩
      | _ => exact (howns hn).elim
    | sharing t =>
      cases t with
      | clone kind of out =>
        obtain rfl := List.mem_singleton.1 hn
        rw [hs.viewOf?_clone hok] at hview
        exact ⟨span, .clone hview⟩
      | rename of target =>
        have hnames : n = of ∨ n = target :=
          (List.mem_cons.1 hn).imp_right List.mem_singleton.1
        exact ⟨span, hs.views_rename hu hnames hview⟩
      | _ => exact (howns hn).elim

/-- What a step does to views. -/
theorem Reachable.viewOf?_step (h : s.Reachable) (u : Step p) (n : Name) (span : Span) :
    (s.step u).2.viewOf? n = some span ↔ (s.Completes u ∧ u.Views s n span) ∨
      (s.viewOf? n = some span ∧ ¬(s.Completes u ∧ n ∈ u.binds)) := by
  by_cases hu : s.Completes u
  · obtain ⟨answer, hok, -⟩ := id hu
    by_cases hn : n ∈ u.binds
    · constructor
      · intro hview
        -- a name has one span, so what is there is what the step was to leave
        obtain ⟨span', hspan'⟩ := h.views_of_viewOf? hu hn hview
        have heq := (h.sound.viewOf?_of_views hok hspan').symm.trans hview
        exact .inl ⟨hu, Option.some.inj heq ▸ hspan'⟩
      · rintro (⟨-, hviews⟩ | ⟨-, hno⟩)
        · exact h.sound.viewOf?_of_views hok hviews
        · exact absurd ⟨hu, hn⟩ hno
    · rw [h.sound.viewOf?_step_of_not_mem hn]
      constructor
      · exact fun hview => .inr ⟨hview, fun hno => hn hno.2⟩
      · rintro (⟨-, hviews⟩ | ⟨hview, -⟩)
        · exact absurd hviews.mem_binds hn
        · exact hview
  · rw [h.step_of_not_completes hu]
    exact ⟨fun hview => .inr ⟨hview, fun hno => hu hno.1⟩,
      fun hor => hor.elim (fun hno => absurd hno.1 hu) And.left⟩

end Store
end CowArrays
