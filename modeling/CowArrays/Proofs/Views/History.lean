import Mathlib.Tactic.Tauto
import CowArrays.Proofs.Views.Spans

/-!
Views and their history. Whether a mapped vector is a view is decided by the steps that led to it:
one of them left its name as a view, and none since has changed the vector or put another in its
place. What a view shows is never written.
-/

namespace CowArrays

variable {p : Precision}

def Step.writes : Step p → List Name
  | act a => a.writes
  | _ => []

namespace Store

variable {s : Store p}

/-- Whether some steps leave a variable alone: none of them that completes binds its name. -/
def Spares (s : Store p) (n : Name) : List (Step p) → Prop
  | [] => True
  | t :: rest => ¬(s.Completes t ∧ n ∈ t.binds) ∧ (s.step t).2.Spares n rest

/-- Whether one of some steps leaves a name as a view of a span, and those after it leave it alone. -/
def Lent (s : Store p) (n : Name) (span : Span) (steps : List (Step p)) : Prop :=
  ∃ before t since, steps = before ++ t :: since ∧ (s.after before).Completes t ∧
    t.Views (s.after before) n span ∧ ((s.after before).step t).2.Spares n since

theorem lent_nil {n : Name} {span : Span} : ¬s.Lent n span [] := by
  rintro ⟨before, t, since, h, -⟩
  simp at h

/-- The step that leaves the view is the first one or a later one. -/
theorem lent_cons {n : Name} {span : Span} {t : Step p} {rest : List (Step p)} :
    s.Lent n span (t :: rest) ↔
      (s.Completes t ∧ t.Views s n span ∧ (s.step t).2.Spares n rest) ∨
        (s.step t).2.Lent n span rest := by
  constructor
  · rintro ⟨before, u, since, heq, hu⟩
    cases before with
    | nil =>
      obtain ⟨rfl, rfl⟩ := List.cons.inj heq
      exact .inl hu
    | cons t' before =>
      obtain ⟨rfl, rfl⟩ := List.cons.inj heq
      exact .inr ⟨before, u, since, rfl, hu⟩
  · rintro (hu | ⟨before, u, since, rfl, hu⟩)
    · exact ⟨[], t, rest, rfl, hu⟩
    · exact ⟨t :: before, u, since, rfl, hu⟩

/-- A name is a view behind some steps when one of them left it as one, or it was one before, and it
was left alone since. -/
theorem Reachable.viewOf?_after (h : s.Reachable) (steps : List (Step p)) (n : Name) (span : Span) :
    (s.after steps).viewOf? n = some span ↔
      s.Lent n span steps ∨ (s.viewOf? n = some span ∧ s.Spares n steps) := by
  induction steps generalizing s with
  | nil =>
    refine ⟨fun hview => .inr ⟨hview, trivial⟩, ?_⟩
    rintro (hlent | ⟨hview, -⟩)
    · exact absurd hlent lent_nil
    · exact hview
  | cons t rest ih =>
    rw [Store.after, ih (.step t h), h.viewOf?_step, lent_cons, Spares]
    tauto

theorem sources_after (steps : List (Step p)) {i : SourceId} {octets : Octets}
    (h : s.sources[i]? = some octets) : (s.after steps).sources[i]? = some octets := by
  induction steps generalizing s with
  | nil => exact h
  | cons t rest ih => exact ih (source_step t h)

theorem Reachable.file?_step (h : s.Reachable) (t : Step p) {f : Name} (hf : f ∉ t.writes) :
    (s.step t).2.reading.file? f = s.reading.file? f := by
  have hs := h.sound
  rw [← hs.reading_plain, ← (hs.step t).reading_plain]
  have htakes := hs.takes t
  generalize (s.step t).1 = answer, (s.step t).2.plain = u at htakes
  cases htakes with
  | act a => exact h.hidden.file?_act a hf
  | ask q | gone of out x saw | alive of out x saw | unknown of out saw => rfl

def askIsView (n : Name) : Step p := .act (.vector (.query .mapped n .isView))

theorem Sound.step_askIsView (hs : s.Sound) {n : Name} {v : Line p} {isView : Bool}
    (h : s.reading.mapped n = .ok (v, isView)) :
    s.step (askIsView n) = (.ok (.bool isView), s) := by
  have hplan : s.plan (askIsView n) = .ok (.tell (.bool isView)) := by
    simp [askIsView, Store.plan, Action.plan, VectorStep.plan, VectorKind.read, h,
      VectorQuery.answer]
  exact hs.step_eq hplan

end Store

/-- A mapped vector is changed by an edit or by an assignment. -/
theorem Step.Mutates.mapped {r : Reading p} {t : Step p} {n : Name} (h : t.Mutates r .mapped n) :
    (∃ e, t = .act (.vector (.edit .mapped n e))) ∨
      ∃ source, t = .act (.vector (.assign .mapped n source)) := by
  generalize hkind : Kind.mapped = kind at h
  cases h with
  | vector k of e =>
    cases k with
    | dense => cases hkind
    | mapped => exact .inl ⟨e, rfl⟩
  | assignVector k of source =>
    cases k with
    | dense => cases hkind
    | mapped => exact .inr ⟨source, rfl⟩
  | _ => cases hkind

namespace Store

variable {s : Store p}

/-- What holds of views behind some steps, and of what a step does then. -/
structure ViewLaws (steps : List (Step p)) (s : Store p) : Prop where
  /-- A mapped vector says that it is a view exactly when one of the steps left it as one, and it was
  neither changed nor replaced since. -/
  isView : ∀ n v isView, s.reading.mapped n = .ok (v, isView) →
    s.step (askIsView n) = (.ok (.bool isView), s) ∧
      (isView = true ↔ ∃ span, Store.Lent {} n span steps)
  /-- Whatever was left as a view shows what its source holds. -/
  entries : ∀ n span, Store.Lent {} n span steps →
    s.reading.mapped n = .ok (.ofOctets (s.octets span.source) span.offset span.count, true)
  /-- No source is written, whatever steps follow. -/
  source : ∀ more (i : SourceId) (octets : Octets), s.sources[i]? = some octets →
    (s.after more).sources[i]? = some octets
  /-- Memory of the caller keeps its octets, unless its name is bound anew. -/
  buffer : ∀ (t : Step p) name octets, s.plain.item? name = some (.buffer octets) →
    name ∉ t.binds → (s.step t).2.plain.item? name = some (.buffer octets)
  /-- Files keep their contents, unless the step writes them. -/
  file : ∀ (t : Step p) name, name ∉ t.writes →
    (s.step t).2.reading.file? name = s.reading.file? name
  /-- A mapped vector that was changed is no view, and only becomes one again when a later step puts
  a view in its place. -/
  mutated : ∀ t n answer, t.Mutates s.reading .mapped n → (s.step t).1 = .ok answer →
    ((s.step t).2.step (askIsView n)).1 = .ok (.bool false) ∧
      ∀ more span, ((s.step t).2.after more).viewOf? n = some span →
        (s.step t).2.Lent n span more
  /-- Every other view is still a view of the same span then. -/
  sibling : ∀ t n m span, t.Mutates s.reading .mapped n → m ≠ n → s.viewOf? m = some span →
    (s.step t).2.viewOf? m = some span

theorem Sound.mapped_of_mutates (hs : s.Sound) {t : Step p} {n : Name}
    (ht : t.Mutates s.reading .mapped n) {answer : Answer p} (hok : (s.step t).1 = .ok answer) :
    ∃ v, (s.step t).2.reading.mapped n = .ok (v, false) := by
  obtain ⟨plan, hplan⟩ := exists_plan_of_step hok
  rcases ht.mapped with ⟨e, rfl⟩ | ⟨source, rfl⟩
  · obtain ⟨⟨v, isView⟩, hread, hrest⟩ := Attempt.bind_eq_ok.1 hplan
    obtain ⟨hcheck, hedit⟩ := Attempt.seq_eq_ok.1 hrest
    obtain rfl := Except.ok.inj hedit
    obtain ⟨x, hx, -⟩ := VectorKind.read_eq_ok hread
    obtain ⟨u, hu⟩ := VectorEdit.run_ok n hcheck
    obtain ⟨t, hstep, hvalue, -⟩ := hs.step_edit (e := ⟨.mapped u false, none⟩) hplan hx
      (by simp [VectorKind.readOwn_own hread, hu, VectorKind.payload, Except.map]) nofun
    exact ⟨u, by rw [hstep]; exact Reading.mapped_eq_ok.2 hvalue⟩
  · obtain ⟨-, -, hrest⟩ := Attempt.bind_eq_ok.1 hplan
    obtain ⟨w, -, hassign⟩ := Attempt.bind_eq_ok.1 hrest
    obtain rfl := Except.ok.inj hassign
    obtain ⟨t, hstep, hvalue⟩ := hs.step_create hplan
    exact ⟨w, by rw [hstep]; exact Reading.mapped_eq_ok.2 hvalue⟩

/-- A view never survives a change, nothing else ends it, and what it shows is never written. -/
theorem viewLaws_after (steps : List (Step p)) : ViewLaws steps (Store.after {} steps) := by
  have hreachable : (Store.after {} steps : Store p).Reachable := Reachable.start.after steps
  have hhistory (n : Name) (span : Span) :
      (Store.after {} steps : Store p).viewOf? n = some span ↔ Store.Lent {} n span steps := by
    rw [Reachable.start.viewOf?_after steps n span]
    -- at the start no name is a view, so one of the steps must have left it
    refine ⟨fun h => h.resolve_right fun hno => ?_, .inl⟩
    cases hno.1
  generalize (Store.after {} steps : Store p) = s at hreachable hhistory
  have hs := hreachable.sound
  constructor
  case isView =>
    intro n v isView hmapped
    refine ⟨hs.step_askIsView hmapped, (mapped_isView_iff hmapped).trans ?_⟩
    exact exists_congr (hhistory n)
  case entries =>
    intro n span hlent
    exact mapped_of_viewOf? ((hhistory n span).2 hlent)
  case source =>
    intro more i octets hi
    exact sources_after more hi
  case buffer =>
    intro t name octets hitem hname
    exact (hs.step_frame hname).2.trans hitem
  case file =>
    intro t name hname
    exact hreachable.file?_step t hname
  case mutated =>
    intro t n answer ht hok
    obtain ⟨v, hmapped⟩ := hs.mapped_of_mutates ht hok
    refine ⟨congrArg Prod.fst ((hs.step t).step_askIsView hmapped), fun more span hview => ?_⟩
    have hnone : (s.step t).2.viewOf? n ≠ some span := fun hspan =>
      Bool.false_ne_true ((mapped_isView_iff hmapped).2 ⟨span, hspan⟩)
    exact (((hreachable.step t).viewOf?_after more n span).1 hview).resolve_right
      fun hno => hnone hno.1
  case sibling =>
    intro t n m span ht hm hview
    have hnot : m ∉ t.binds := by
      rcases ht.mapped with ⟨e, rfl⟩ | ⟨source, rfl⟩
      · exact fun hmem => hm (List.mem_singleton.1 hmem)
      · exact fun hmem => hm (List.mem_singleton.1 hmem)
    rw [hs.viewOf?_step_of_not_mem hnot, hview]

/-- A view of a buffer and a clone of it: the view is changed and is none any more, and the clone
still views the buffer. -/
example : ((({} : Store .double).run [.act (.memory (.lend "memory" #[.zero, .unit])),
      .act (.vector (.viewBuffer "memory" 0 2 "v")), .act (.sharing (.clone .mapped "v" "w")),
      .act (.vector (.edit .mapped "v" (.scale .zero)))]).map fun x =>
    ((x.2.reading.mapped "v").toOption.map Prod.snd,
      (x.2.reading.mapped "w").toOption.map Prod.snd)) =
    [(none, none), (some true, none), (some true, some true), (some false, some true)] := by
  decide

end Store
end CowArrays
