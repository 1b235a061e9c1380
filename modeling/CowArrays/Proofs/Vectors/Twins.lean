import CowArrays.Proofs.Sharing.Frame
import CowArrays.Proofs.Vectors.Calls
import CowArrays.Proofs.Vectors.Lines

/-!
A family of mapped vectors behaves like the same family of dense ones. The two are run side by side
on plain values, where views, owners and cells do not show, and what holds there holds of stores.
-/

namespace CowArrays

variable {p : Precision} {family : Name → Prop}

/-- What the same name of the family is bound to on the one side and on the other: a dense vector
and a mapped one of the same entries, or nothing. -/
inductive Twins : Option (Item p) → Option (Item p) → Prop
  | none : Twins none none
  | vector (v : Line p) (isView : Bool) :
      Twins (some (.container .vector (.vector v))) (some (.container .mapped (.mapped v isView)))

structure Alike (family : Name → Prop) (s t : Plain p) : Prop where
  twins : ∀ n, family n → Twins (s.item? n) (t.item? n)
  others : ∀ n, ¬family n → t.item? n = s.item? n

namespace Alike

variable {s t : Plain p} {n : Name}

theorem start : Alike family ({} : Plain p) {} := ⟨fun _ _ => .none, fun _ _ => rfl⟩

/-! ### Changes on both sides -/

theorem setTwin (h : Alike family s t) (hn : family n) (v : Line p) (isView : Bool) :
    Alike family (s.set n (.container .vector (.vector v)))
      (t.set n (.container .mapped (.mapped v isView))) := by
  refine ⟨fun m hm => ?_, fun m hm => ?_⟩
  · by_cases hmn : m = n
    · simpa [Plain.set, hmn] using Twins.vector v isView
    · simpa [Plain.set, hmn] using h.twins m hm
  · have hmn : m ≠ n := fun heq => hm (heq ▸ hn)
    simpa [Plain.set, hmn] using h.others m hm

theorem setOther (h : Alike family s t) (hn : ¬family n) (i : Item p) :
    Alike family (s.set n i) (t.set n i) := by
  refine ⟨fun m hm => ?_, fun m hm => ?_⟩
  · have hmn : m ≠ n := fun heq => hn (heq ▸ hm)
    simpa [Plain.set, hmn] using h.twins m hm
  · by_cases hmn : m = n
    · simp [Plain.set, hmn]
    · simpa [Plain.set, hmn] using h.others m hm

theorem remove (h : Alike family s t) (n : Name) : Alike family (s.remove n) (t.remove n) := by
  refine ⟨fun m hm => ?_, fun m hm => ?_⟩
  · by_cases hmn : m = n
    · simpa [Plain.remove, hmn] using Twins.none
    · simpa [Plain.remove, hmn] using h.twins m hm
  · by_cases hmn : m = n
    · simp [Plain.remove, hmn]
    · simpa [Plain.remove, hmn] using h.others m hm

/-! ### Reading on both sides -/

/-- A member of the family is there on both sides with the same entries, or on neither. -/
theorem member (h : Alike family s t) (hn : family n) :
    (∃ v isView, s.item? n = some (.container .vector (.vector v)) ∧
      t.item? n = some (.container .mapped (.mapped v isView))) ∨
    (s.item? n = none ∧ t.item? n = none) := by
  have htwins := h.twins n hn
  generalize s.item? n = i at htwins ⊢
  generalize t.item? n = j at htwins ⊢
  cases htwins with
  | none => exact .inr ⟨rfl, rfl⟩
  | vector v isView => exact .inl ⟨v, isView, rfl, rfl⟩

theorem read_dense {v : Line p} (hs : s.item? n = some (.container .vector (.vector v))) :
    VectorKind.read .dense s.reading n = .ok (v, false) := by
  simp [VectorKind.read, Reading.vector, Reading.get, Plain.reading, hs, Item.value, Except.map]

theorem read_mapped {v : Line p} {isView : Bool}
    (hs : s.item? n = some (.container .mapped (.mapped v isView))) :
    VectorKind.read .mapped s.reading n = .ok (v, isView) := by
  simp [VectorKind.read, Reading.mapped, Reading.get, Plain.reading, hs, Item.value]

theorem read_none (k : VectorKind) (hs : s.item? n = none) :
    k.read s.reading n = .error (.unknown n) := by
  cases k <;>
    simp [VectorKind.read, Reading.vector, Reading.mapped, Reading.get, Plain.reading, hs, Except.map]

theorem read_eq (h : Alike family s t) (hn : family n) :
    (∃ v isView, VectorKind.read .dense s.reading n = .ok (v, false) ∧
      VectorKind.read .mapped t.reading n = .ok (v, isView)) ∨
    (VectorKind.read .dense s.reading n = .error (.unknown n) ∧
      VectorKind.read .mapped t.reading n = .error (.unknown n)) := by
  rcases h.member hn with ⟨v, isView, hs, ht⟩ | ⟨hs, ht⟩
  · exact .inl ⟨v, isView, read_dense hs, read_mapped ht⟩
  · exact .inr ⟨read_none .dense hs, read_none .mapped ht⟩

theorem vector_eq (h : Alike family s t) (hn : ¬family n) :
    t.reading.vector n = s.reading.vector n := by
  simp only [Reading.vector, Reading.get, Plain.reading, h.others n hn]

/-- Memory of the caller is the same, as no member of the family is one. -/
theorem buffer_eq (h : Alike family s t) (n : Name) : t.reading.buffer n = s.reading.buffer n := by
  by_cases hn : family n
  · rcases h.member hn with ⟨v, isView, hs, ht⟩ | ⟨hs, ht⟩
    · simp [Reading.buffer, Reading.get, Plain.reading, hs, ht, Item.value]
    · simp [Reading.buffer, Reading.get, Plain.reading, hs, ht]
  · simp only [Reading.buffer, Reading.get, Plain.reading, h.others n hn]

end Alike

/-! ### One call on both sides -/

/-- What came of something on both sides: the same outcome, and again values that are alike. -/
def Agree (family : Name → Prop) {α : Type} (x y : α × Plain p) : Prop :=
  x.1 = y.1 ∧ Alike family x.2 y.2

namespace Alike

variable {s t : Plain p} {n : Name} {a b : Action p}

theorem act_of_error (h : Alike family s t) (failure : Failure)
    (ha : a.plan s.reading = .error failure) (hb : b.plan t.reading = .error failure) :
    Agree family (s.act a) (t.act b) := by
  rw [Plain.act_of_error ha, Plain.act_of_error hb]
  exact ⟨rfl, h⟩

theorem act_of_tell (h : Alike family s t) (answer : Answer p)
    (ha : a.plan s.reading = .ok (.tell answer)) (hb : b.plan t.reading = .ok (.tell answer)) :
    Agree family (s.act a) (t.act b) := by
  rw [Plain.act_of_ok ha, Plain.act_of_ok hb]
  exact ⟨rfl, h⟩

theorem applyAll_one (s : Plain p) (c : Change p) : s.applyAll [c] = s.apply c := by
  rw [Plain.applyAll]
  rcases s.apply c with ⟨failure | _, u⟩ <;> rfl

theorem act_of_change {c d : Change p} (ha : a.plan s.reading = .ok (.change [c]))
    (hb : b.plan t.reading = .ok (.change [d])) (h : Agree family (s.apply c) (t.apply d)) :
    Agree family (s.act a) (t.act b) := by
  rw [Plain.act_of_ok ha, Plain.act_of_ok hb, Plan.change, Plan.change, applyAll_one,
    applyAll_one]
  exact ⟨congrArg (Except.map _) h.1, h.2⟩

/-! ### Calls that only read -/

theorem answer_eq {q : VectorQuery} (hq : q.OfEntries) (v : Line p) (b c : Bool) :
    (q.answer .dense v b : Attempt (Answer p)) = q.answer .mapped v c := by
  cases q with
  | isView => cases hq
  | inspect tall => cases hq
  | _ => rfl

theorem query (h : Alike family s t) (hn : family n) {q : VectorQuery} (hq : q.OfEntries) :
    Agree family (s.act (.vector (.query .dense n q))) (t.act (.vector (.query .mapped n q))) := by
  rcases h.read_eq hn with ⟨v, isView, hs, ht⟩ | ⟨hs, ht⟩
  · have heq := answer_eq hq v false isView
    cases ha : (q.answer .mapped v isView : Attempt (Answer p)) with
    | error failure =>
      rw [ha] at heq
      refine h.act_of_error failure ?_ ?_
      · simp [Action.plan, VectorStep.plan, hs, heq]
      · simp [Action.plan, VectorStep.plan, ht, ha]
    | ok answer =>
      rw [ha] at heq
      refine h.act_of_tell answer ?_ ?_
      · simp [Action.plan, VectorStep.plan, hs, heq]
      · simp [Action.plan, VectorStep.plan, ht, ha]
  · refine h.act_of_error (.unknown n) ?_ ?_
    · simp [Action.plan, VectorStep.plan, hs]
    · simp [Action.plan, VectorStep.plan, ht]

/-- Two members of the family are both there with their entries, or one is missing on both sides. -/
theorem read_pair (h : Alike family s t) {m : Name} (hn : family n) (hm : family m) :
    (∃ v w b c, VectorKind.read .dense s.reading n = .ok (v, false) ∧
      VectorKind.read .dense s.reading m = .ok (w, false) ∧
      VectorKind.read .mapped t.reading n = .ok (v, b) ∧
      VectorKind.read .mapped t.reading m = .ok (w, c)) ∨
    ∃ failure, (∀ f : Line p × Bool → Line p × Bool → Attempt (Plan p),
      (do f (← VectorKind.read .dense s.reading n) (← VectorKind.read .dense s.reading m)) =
        .error failure) ∧
      ∀ f : Line p × Bool → Line p × Bool → Attempt (Plan p),
      (do f (← VectorKind.read .mapped t.reading n) (← VectorKind.read .mapped t.reading m)) =
        .error failure := by
  rcases h.read_eq hn with ⟨v, b, hs, ht⟩ | ⟨hs, ht⟩
  · rcases h.read_eq hm with ⟨w, c, hs', ht'⟩ | ⟨hs', ht'⟩
    · exact .inl ⟨v, w, b, c, hs, hs', ht, ht'⟩
    · exact .inr ⟨.unknown m, by simp [hs, hs'], by simp [ht, ht']⟩
  · exact .inr ⟨.unknown n, by simp [hs], by simp [ht]⟩

theorem same (h : Alike family s t) {m : Name} (hn : family n) (hm : family m) :
    Agree family (s.act (.vector (.same .dense n m))) (t.act (.vector (.same .mapped n m))) := by
  rcases h.read_pair hn hm with ⟨v, w, b, c, hs, hs', ht, ht'⟩ | ⟨failure, hs, ht⟩
  · refine h.act_of_tell (.bool (v.same w)) ?_ ?_
    · simp [Action.plan, VectorStep.plan, hs, hs', VectorKind.same]
    · simp [Action.plan, VectorStep.plan, ht, ht', VectorKind.same, Mapped.same_eq]
  · exact h.act_of_error failure (hs _) (ht _)

theorem equalSize (h : Alike family s t) {m : Name} (hn : family n) (hm : family m) :
    Agree family (s.act (.vector (.equalSize .dense n m)))
      (t.act (.vector (.equalSize .mapped n m))) := by
  rcases h.read_pair hn hm with ⟨v, w, b, c, hs, hs', ht, ht'⟩ | ⟨failure, hs, ht⟩
  · refine h.act_of_tell (.bool (v.size == w.size)) ?_ ?_
    · simp [Action.plan, VectorStep.plan, hs, hs']
    · simp [Action.plan, VectorStep.plan, ht, ht']
  · exact h.act_of_error failure (hs _) (ht _)

/-! ### Calls that make or replace a vector -/

theorem create (h : Alike family s t) (hn : family n) (v : Line p) :
    Agree family (s.act (.vector (.create .dense n v))) (t.act (.vector (.create .mapped n v))) :=
  act_of_change rfl rfl ⟨rfl, h.setTwin hn v false⟩

theorem createOther (h : Alike family s t) (hn : ¬family n) (v : Line p) :
    Agree family (s.act (.vector (.create .dense n v))) (t.act (.vector (.create .dense n v))) :=
  act_of_change rfl rfl ⟨rfl, h.setOther hn _⟩

theorem lend (h : Alike family s t) (hn : ¬family n) (v : Line p) :
    Agree family (s.act (.memory (.lend n v))) (t.act (.memory (.lend n v))) :=
  act_of_change rfl rfl ⟨rfl, h.setOther hn _⟩

theorem copy (h : Alike family s t) {out : Name} (hn : family n) (hout : family out) :
    Agree family (s.act (.vector (.copy .dense n out)))
      (t.act (.vector (.copy .mapped n out))) := by
  rcases h.read_eq hn with ⟨v, isView, hs, ht⟩ | ⟨hs, ht⟩
  · refine act_of_change (c := .create .vector out (.vector v))
      (d := .create .mapped out (.mapped v false)) ?_ ?_
      ⟨rfl, h.setTwin hout v false⟩
    · simp [Action.plan, VectorStep.plan, hs, VectorKind.payload, VectorKind.kind]
    · simp [Action.plan, VectorStep.plan, ht, VectorKind.payload, VectorKind.kind]
  · refine h.act_of_error (.unknown n) ?_ ?_
    · simp [Action.plan, VectorStep.plan, hs]
    · simp [Action.plan, VectorStep.plan, ht]

theorem assign (h : Alike family s t) {source : Name} (hn : family n) (hsource : ¬family source) :
    Agree family (s.act (.vector (.assign .dense n source)))
      (t.act (.vector (.assign .mapped n source))) := by
  have hvector := h.vector_eq hsource
  rcases h.read_eq hn with ⟨v, isView, hs, ht⟩ | ⟨hs, ht⟩
  · cases hw : s.reading.vector source with
    | error failure =>
      rw [hw] at hvector
      refine h.act_of_error failure ?_ ?_
      · simp [Action.plan, VectorStep.plan, hs, hw]
      · simp [Action.plan, VectorStep.plan, ht, hvector]
    | ok w =>
      rw [hw] at hvector
      refine act_of_change (c := .create .vector n (.vector w))
        (d := .create .mapped n (.mapped w false)) ?_ ?_
        ⟨rfl, h.setTwin hn w false⟩
      · simp [Action.plan, VectorStep.plan, hs, hw, VectorKind.payload, VectorKind.kind]
      · simp [Action.plan, VectorStep.plan, ht, hvector, VectorKind.payload, VectorKind.kind]
  · refine h.act_of_error (.unknown n) ?_ ?_
    · simp [Action.plan, VectorStep.plan, hs]
    · simp [Action.plan, VectorStep.plan, ht]

theorem clone (h : Alike family s t) {out : Name} (hn : family n) (hout : family out) :
    Agree family (s.act (.sharing (.clone .vector n out)))
      (t.act (.sharing (.clone .mapped n out))) := by
  rcases h.member hn with ⟨v, isView, hs, ht⟩ | ⟨hs, ht⟩
  · refine act_of_change (c := .join .vector out n) (d := .join .mapped out n) ?_ ?_ ⟨rfl, ?_⟩
    · simp [Action.plan, SharingStep.plan, Reading.container, Reading.get, Plain.reading, hs, Item.value]
    · simp [Action.plan, SharingStep.plan, Reading.container, Reading.get, Plain.reading, ht, Item.value]
    · simpa [Plain.apply, Plain.derive, hs, ht, Item.toContainer?, Item.owned?] using
        h.setTwin hout v isView
  · refine h.act_of_error (.unknown n) ?_ ?_
    · simp [Action.plan, SharingStep.plan, Reading.container, Reading.get, Plain.reading, hs]
    · simp [Action.plan, SharingStep.plan, Reading.container, Reading.get, Plain.reading, ht]

theorem drop (h : Alike family s t) (hn : family n) :
    Agree family (s.act (.sharing (.drop n))) (t.act (.sharing (.drop n))) := by
  rcases h.member hn with ⟨v, isView, hs, ht⟩ | ⟨hs, ht⟩
  · refine act_of_change (c := .drop n) (d := .drop n) ?_ ?_ ⟨rfl, h.remove n⟩
    · simp [Action.plan, SharingStep.plan, Plain.reading, hs]
    · simp [Action.plan, SharingStep.plan, Plain.reading, ht]
  · refine h.act_of_tell .absent ?_ ?_
    · simp [Action.plan, SharingStep.plan, Plain.reading, hs]
    · simp [Action.plan, SharingStep.plan, Plain.reading, ht]

/-! ### Calls that change a vector -/

theorem check_eq (h : Alike family s t) {e : VectorEdit p} (he : e.Typed family) (v : Line p) :
    e.check .mapped t.reading v = e.check .dense s.reading v := by
  cases e with
  | axpy a other =>
    rcases h.read_eq he with ⟨w, isView, hs, ht⟩ | ⟨hs, ht⟩
    · simp [VectorEdit.check, hs, ht]
    · simp [VectorEdit.check, hs, ht]
  | _ => rfl

/-- Behind the check both kinds make the same line, though each in its own way. -/
theorem run_eq (h : Alike family s t) {e : VectorEdit p} (he : e.Typed family) {v : Line p}
    (hcheck : e.check .dense s.reading v = .ok ()) :
    e.run .mapped t.reading v = e.run .dense s.reading v := by
  cases e with
  | axpy a other =>
    obtain ⟨⟨w, b⟩, hw, hshape⟩ := Attempt.bind_eq_ok.1 hcheck
    have hsize : v.size = w.size := Line.shape_inj.1 (checkShape_eq_ok.1 hshape)
    rcases h.read_eq he with ⟨w', isView, hs, ht⟩ | ⟨hs, -⟩
    · obtain ⟨rfl, -⟩ := Prod.ext_iff.1 (Except.ok.inj (hs.symm.trans hw))
      simp [VectorEdit.run, hs, ht, VectorKind.addScaled, Mapped.addScaled_eq hsize]
    · rw [hs] at hw
      cases hw
  | _ => rfl

theorem own (h : Alike family s t) (hn : family n) {v : Line p} {isView : Bool}
    (hs : s.item? n = some (.container .vector (.vector v)))
    (ht : t.item? n = some (.container .mapped (.mapped v isView))) :
    s.own n = s ∧ t.own n = t.set n (.container .mapped (.mapped v false)) ∧
      Alike family s (t.set n (.container .mapped (.mapped v false))) := by
  have hself : s.own n = s := by
    simp only [Plain.own, hs]
    exact Plain.set_self hs
  refine ⟨hself, by simp only [Plain.own, ht, Payload.owned], ?_⟩
  have hset := h.setTwin hn v false
  rwa [Plain.set_self hs] at hset

/-- What an edit of a vector comes to behind its check. -/
theorem act_edit {k : VectorKind} {kind : Kind} {x : Payload p} {v u : Line p} {isView : Bool}
    {e : VectorEdit p} (hx : s.item? n = some (.container kind x))
    (hread : k.read s.reading n = .ok (v, isView)) (hcheck : e.check k s.reading v = .ok ())
    (hrun : e.run k (s.own n).reading v = .ok u) : s.act (.vector (.edit k n e)) =
      (.ok .done, (s.own n).set n (.container kind (k.payload u))) := by
  have hplan : Action.plan s.reading (.vector (.edit k n e)) =
      .ok (.edit n fun r => do return k.payload (← e.run k r (← k.readOwn r n))) := by
    simp [Action.plan, VectorStep.plan, hread, hcheck]
  have hown : k.readOwn (s.own n).reading n = .ok v := by
    rw [Store.reading_own]
    exact VectorKind.readOwn_own hread
  have hpayload : (k.payload u).owned = k.payload u := by
    cases k <;> rfl
  rw [Plain.act_of_ok hplan, Plan.edit, Plan.change, applyAll_one]
  simp only [Plain.apply, Plain.edit, hown, hrun, Attempt.ok_bind, Attempt.pure_eq_ok, Except.map,
    Plain.settle, Plain.put, Plain.item?_own hx, hpayload]

theorem edit (h : Alike family s t) (hn : family n) {e : VectorEdit p} (he : e.Typed family) :
    Agree family (s.act (.vector (.edit .dense n e))) (t.act (.vector (.edit .mapped n e))) := by
  rcases h.member hn with ⟨v, isView, hsi, hti⟩ | ⟨hsi, hti⟩
  · have hs := read_dense hsi
    have ht := read_mapped hti
    have hcheck := h.check_eq he v
    cases hc : e.check .dense s.reading v with
    | error failure =>
      refine h.act_of_error failure ?_ ?_
      · simp [Action.plan, VectorStep.plan, hs, hc]
      · simp [Action.plan, VectorStep.plan, ht, hcheck, hc]
    | ok _ =>
      -- the dense vector is changed where it is, the mapped one behind the end of its view
      obtain ⟨hself, hown, halike⟩ := h.own hn hsi hti
      obtain ⟨u, hu⟩ := VectorEdit.run_ok n hc
      rw [← Store.reading_own, hself] at hu
      have hmapped := (halike.run_eq he hc).trans hu
      rw [← hown] at hmapped
      rw [act_edit hsi hs hc (by rwa [hself]), act_edit hti ht (hcheck.trans hc) hmapped, hself,
        hown]
      exact ⟨rfl, halike.setTwin hn u false⟩
  · refine h.act_of_error (.unknown n) ?_ ?_
    · simp [Action.plan, VectorStep.plan, read_none .dense hsi]
    · simp [Action.plan, VectorStep.plan, read_none .mapped hti]

/-! ### Calls that are other steps for each kind -/

theorem item?_of_buffer {v : Line p} (hv : s.reading.buffer n = .ok v) :
    ∃ octets, s.item? n = some (.buffer octets) ∧ v = .ofAllOctets octets := by
  obtain ⟨i, hi, hvalue⟩ := Option.map_eq_some_iff.1 (Reading.buffer_eq_ok.1 hv)
  cases i with
  | buffer octets => exact ⟨octets, hi, (Value.buffer.inj hvalue).symm⟩
  | container _ x | shared x | observer x | pattern x => cases hvalue

theorem perform_of_ok {k : VectorKind} {c : VectorCall p} (h : c.action k s.reading = .ok a) :
    s.perform k c = s.act a := by
  simp only [Plain.perform, h]

theorem perform_of_error {k : VectorKind} {c : VectorCall p} {failure : Failure}
    (h : c.action k s.reading = .error failure) : s.perform k c = (.error failure, s) := by
  simp only [Plain.perform, h]

/-- Where there is nothing to make a vector over, neither kind makes one. -/
theorem spanning_of_error (h : Alike family s t) {memory : Memory} (failure : Failure)
    (hs : memory.entries s.reading = .error failure) {out : Name}
    (ht : (memory.view out).plan t.reading = .error failure) :
    Agree family (s.perform .dense (.spanning memory out))
      (t.perform .mapped (.spanning memory out)) := by
  have haction : (VectorCall.spanning memory out).action .dense s.reading = .error failure := by
    simp [VectorCall.action, hs]
  rw [perform_of_error haction, perform_of_ok (k := .mapped) (a := .vector (memory.view out)) rfl,
    Plain.act_of_error (a := .vector (memory.view out)) ht]
  exact ⟨rfl, h⟩

/-- A view sees the scalars that a dense vector is made of. -/
theorem spanning_of_ok (h : Alike family s t) {memory : Memory} {v : Line p}
    (hs : memory.entries s.reading = .ok v) {out : Name} (hout : family out) {origin : Origin}
    {octets : Octets} {offset count : Nat}
    (ht : (memory.view out).plan t.reading = .ok (.change [.view out origin offset count]))
    (horigin : t.resolve origin = some octets) (hv : v = .ofOctets octets offset count) :
    Agree family (s.perform .dense (.spanning memory out))
      (t.perform .mapped (.spanning memory out)) := by
  rw [perform_of_ok (a := .vector (.create .dense out v)) (by simp [VectorCall.action, hs]),
    perform_of_ok (k := .mapped) (a := .vector (memory.view out)) rfl]
  refine act_of_change (c := .create .vector out (.vector v)) rfl ht ⟨rfl, ?_⟩
  simpa [Plain.apply, horigin, ← hv, Payload.owned] using h.setTwin hout v true

theorem spanning (h : Alike family s t) {out : Name} (hout : family out) (memory : Memory) :
    Agree family (s.perform .dense (.spanning memory out))
      (t.perform .mapped (.spanning memory out)) := by
  cases memory with
  | buffer name start stop =>
    have hbuffer := h.buffer_eq name
    cases hv : s.reading.buffer name with
    | error failure =>
      rw [hv] at hbuffer
      refine h.spanning_of_error failure ?_ ?_
      · simp [Memory.entries, hv]
      · simp [Memory.view, VectorStep.plan, hbuffer]
    | ok v =>
      rw [hv] at hbuffer
      by_cases hrange : start ≤ stop ∧ stop ≤ v.size
      · obtain ⟨octets, hitem, rfl⟩ := item?_of_buffer hbuffer
        have hentries : (Memory.buffer name start stop).entries s.reading =
            .ok ((Line.ofAllOctets octets).extract start stop) := by
          simp only [Memory.entries, hv, Attempt.ok_bind, if_pos hrange]
          rfl
        have hplan : ((Memory.buffer name start stop).view out).plan t.reading = .ok (.change
            [.view out (.buffer name) (start * p.byteSize) (stop - start)]) := by
          simp only [Memory.view, VectorStep.plan, hbuffer, Attempt.ok_bind, if_pos hrange]
          rfl
        have hview : Line.ofOctets (p := p) octets (start * p.byteSize) (stop - start) =
            (Line.ofAllOctets octets).extract start stop :=
          Line.ofOctets_eq_extract (by simpa [Line.ofAllOctets, Line.ofOctets] using hrange.2)
        exact h.spanning_of_ok hentries hout hplan (by simp [Plain.resolve, hitem]) hview.symm
      · refine h.spanning_of_error (.unknown name) ?_ ?_
        · simp only [Memory.entries, hv, Attempt.ok_bind, if_neg hrange]
          rfl
        · simp only [Memory.view, VectorStep.plan, hbuffer, Attempt.ok_bind, if_neg hrange]
          rfl
  | octets slice =>
    cases hcount : castCount p slice with
    | error failure =>
      refine h.spanning_of_error failure ?_ ?_
      · simp [Memory.entries, cast, hcount]
      · simp [Memory.view, VectorStep.plan, hcount]
    | ok count =>
      have hentries : (Memory.octets slice).entries s.reading =
          .ok (Line.ofOctets slice.whole slice.offset count) := by
        simp [Memory.entries, cast, hcount, Line.ofOctets, Slice.octets]
      have hplan : ((Memory.octets slice).view out).plan t.reading =
          .ok (.change [.view out (.octets slice.whole) slice.offset count]) := by
        simp [Memory.view, VectorStep.plan, hcount]
      exact h.spanning_of_ok hentries hout hplan rfl rfl

theorem intoDense (h : Alike family s t) {out : Name} (hn : family n) (hout : ¬family out) :
    Agree family (s.perform .dense (.intoDense n out)) (t.perform .mapped (.intoDense n out)) := by
  rw [perform_of_ok (k := .mapped) (a := .vector (.intoDense n out)) rfl]
  rcases h.member hn with ⟨v, isView, hs, ht⟩ | ⟨hs, ht⟩
  · have hvector : s.reading.vector n = .ok v := by
      simp [Reading.vector, Reading.get, Plain.reading, hs, Item.value]
    have hmapped : t.reading.mapped n = .ok (v, isView) := read_mapped ht
    -- one side moves the line, the other drops the view and makes a line of its entries
    have hmove : Action.plan s.reading (.sharing (.rename n out)) =
        .ok (.change [.rename n out]) := by
      simp [Action.plan, SharingStep.plan, Plain.reading, hs]
    have hturn : Action.plan t.reading (.vector (.intoDense n out)) =
        .ok (.change [.drop n, .create .vector out (.vector v)]) := by
      simp [Action.plan, VectorStep.plan, hmapped]
    rw [perform_of_ok (a := .sharing (.rename n out)) (by simp [VectorCall.action, hvector]),
      Plain.act_of_ok hmove, Plain.act_of_ok hturn]
    refine ⟨rfl, ?_⟩
    simpa [Plan.change, Plain.applyAll, Plain.apply, Plain.rename, hs, Payload.owned] using
      (h.remove n).setOther hout (.container .vector (.vector v))
  · have hvector : s.reading.vector n = .error (.unknown n) := by
      simp [Reading.vector, Reading.get, Plain.reading, hs]
    have hmapped : t.reading.mapped n = .error (.unknown n) := read_none .mapped ht
    have hdense : (VectorCall.intoDense n out).action .dense s.reading = .error (.unknown n) := by
      simp [VectorCall.action, hvector]
    have hturn : Action.plan t.reading (.vector (.intoDense n out)) = .error (.unknown n) := by
      simp [Action.plan, VectorStep.plan, hmapped]
    rw [perform_of_error hdense, Plain.act_of_error hturn]
    exact ⟨rfl, h⟩

/-- Every call comes to the same for both kinds. -/
theorem perform (h : Alike family s t) {c : VectorCall p} (hc : c.Typed family) :
    Agree family (s.perform .dense c) (t.perform .mapped c) := by
  cases c with
  | lend buffer v => exact h.lend hc v
  | backend out v => exact h.createOther hc v
  | ofValues out v => exact h.create hc v
  | spanning memory out => exact h.spanning hc memory
  | clone of out => exact h.clone hc.1 hc.2
  | copy of out => exact h.copy hc.1 hc.2
  | query of q => exact h.query hc.1 hc.2
  | edit of e => exact h.edit hc.1 hc.2
  | assign of source => exact h.assign hc.1 hc.2
  | same of other => exact h.same hc.1 hc.2
  | equalSize of other => exact h.equalSize hc.1 hc.2
  | intoDense of out => exact h.intoDense hc.1 hc.2
  | drop of => exact h.drop hc

end Alike
end CowArrays
