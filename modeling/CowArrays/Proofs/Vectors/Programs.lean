import Mathlib.Data.List.Forall2
import CowArrays.Proofs.Vectors.Twins

/-!
Programs over a family of vectors, run on stores. Whether the family is of dense or of mapped
vectors cannot be told from what the calls come to, nor from the entries of any vector at any time.
-/

namespace CowArrays

variable {p : Precision} {family : Name → Prop}

namespace Store

variable {s t : Store p} {k : VectorKind} {c : VectorCall p}

theorem perform_of_ok {a : Action p} (h : c.action k s.reading = .ok a) :
    s.perform k c = s.step (.act a) := by
  simp only [perform, h]

theorem perform_of_error {failure : Failure} (h : c.action k s.reading = .error failure) :
    s.perform k c = (.error failure, s) := by
  simp only [perform, h]

theorem Sound.perform (hs : s.Sound) (k : VectorKind) (c : VectorCall p) :
    (s.perform k c).2.Sound := by
  cases ha : c.action k s.reading with
  | error failure =>
    rw [perform_of_error ha]
    exact hs
  | ok a =>
    rw [perform_of_ok ha]
    exact hs.step (.act a)

theorem Sound.plain_perform (hs : s.Sound) (k : VectorKind) (c : VectorCall p) :
    s.plain.perform k c = ((s.perform k c).1, (s.perform k c).2.plain) := by
  have hreading := hs.reading_plain
  cases ha : c.action k s.reading with
  | error failure => rw [Alike.perform_of_error (hreading ▸ ha), perform_of_error ha]
  | ok a => rw [Alike.perform_of_ok (hreading ▸ ha), perform_of_ok ha, hs.plain_act]

/-! ### Turning a mapped vector into a dense one -/

theorem Sound.mapped_eq_ok (hs : s.Sound) {n : Name} {v : Line p} {isView : Bool}
    (h : s.plain.item? n = some (.container .mapped (.mapped v isView))) :
    s.reading.mapped n = .ok (v, isView) := by
  rw [← hs.reading_plain]
  exact Alike.read_mapped h

theorem Sound.step_intoDense (hs : s.Sound) {n : Name} {v : Line p} {isView : Bool}
    (h : s.reading.mapped n = .ok (v, isView)) (out : Name) :
    ∃ t, s.step (.act (.vector (.intoDense n out))) = (.ok .done, t) ∧
      t.reading.vector out = .ok v ∧
      ∀ m, m ≠ n → m ≠ out → t.find? m = s.find? m ∧ t.reading.value? m = s.reading.value? m := by
  have hplan : s.plan (.act (.vector (.intoDense n out))) =
      .ok (.change [.drop n, .create .vector out (.vector v)]) := by
    simp [Store.plan, Action.plan, VectorStep.plan, h]
  have hreading : Action.plan s.plain.reading (.vector (.intoDense n out)) =
      .ok (.change [.drop n, .create .vector out (.vector v)]) := by
    rw [hs.reading_plain]
    exact hplan
  have hact := hs.plain_act (.vector (.intoDense n out))
  have ht := hs.step (.act (.vector (.intoDense n out)))
  have hframe (m : Name) (hn : m ≠ n) (hout : m ≠ out) :=
    hs.step_frame (t := .act (.vector (.intoDense n out))) (n := m)
      (by simp [Step.binds, Action.binds, VectorStep.binds, hn, hout])
  have hstep := hs.step_eq hplan
  generalize s.step (.act (.vector (.intoDense n out))) = result at *
  obtain ⟨answer, t⟩ := result
  rw [Plain.act_of_ok hreading] at hact
  obtain ⟨hanswer, -⟩ := Prod.mk.inj hstep
  obtain ⟨-, hplain⟩ := Prod.mk.inj hact
  refine ⟨t, by rw [hanswer]; rfl, ?_, fun m hn hout => ⟨(hframe m hn hout).1, ?_⟩⟩
  · rw [← ht.reading_plain, ← hplain]
    simp [Plan.change, Plain.applyAll, Plain.apply, Plain.set, Plain.reading, Reading.vector,
      Reading.get, Payload.owned, Item.value]
  · rw [← ht.reading_plain, ← hs.reading_plain]
    exact congrArg (Option.map Item.value) (hframe m hn hout).2

end Store

/-! ### Programs -/

/-- One store with a dense family and one with a mapped family that have the same to say. -/
structure Interchangeable (family : Name → Prop) (s t : Store p) : Prop where
  /-- The members of the family have the same entries, whether they are views or not. -/
  entries : ∀ n, family n → ∀ v,
    s.reading.vector n = .ok v ↔ ∃ isView, t.reading.mapped n = .ok (v, isView)
  /-- All other variables are the same. -/
  others : ∀ n, ¬family n → t.reading.value? n = s.reading.value? n
  /-- A mapped vector can be turned into a dense one of the corresponding entries, and no other
  variable notices. -/
  intoDense : ∀ n, family n → ∀ v, s.reading.vector n = .ok v → ∀ out,
    ∃ u, t.step (.act (.vector (.intoDense n out))) = (.ok .done, u) ∧
      u.reading.vector out = .ok v ∧
      ∀ m, m ≠ n → m ≠ out → u.find? m = t.find? m ∧ u.reading.value? m = t.reading.value? m

theorem Alike.interchangeable {s t : Store p} (hs : s.Sound) (ht : t.Sound)
    (h : Alike family s.plain t.plain) : Interchangeable family s t := by
  have hentries (n : Name) (hn : family n) (v : Line p) :
      s.reading.vector n = .ok v ↔ ∃ isView, t.reading.mapped n = .ok (v, isView) := by
    rw [← hs.reading_plain, ← ht.reading_plain]
    rcases h.member hn with ⟨w, isView, hsi, hti⟩ | ⟨hsi, hti⟩
    · simp [Reading.vector, Reading.mapped, Reading.get, Plain.reading, hsi, hti, Item.value]
    · simp [Reading.vector, Reading.mapped, Reading.get, Plain.reading, hsi, hti]
  refine ⟨hentries, fun n hn => ?_, fun n hn v hv out => ?_⟩
  · rw [← hs.reading_plain, ← ht.reading_plain]
    exact congrArg (Option.map Item.value) (h.others n hn)
  · obtain ⟨isView, hmapped⟩ := (hentries n hn v).1 hv
    exact ht.step_intoDense hmapped out

theorem Alike.performAll {s t : Store p} (hs : s.Sound) (ht : t.Sound)
    (h : Alike family s.plain t.plain) {calls : List (VectorCall p)}
    (hcalls : ∀ c ∈ calls, c.Typed family) :
    List.Forall₂ (fun d m => d.1 = m.1 ∧ Interchangeable family d.2 m.2)
      (s.performAll .dense calls) (t.performAll .mapped calls) := by
  induction calls generalizing s t with
  | nil => exact .nil
  | cons c rest ih =>
    obtain ⟨hc, hrest⟩ := List.forall_mem_cons.1 hcalls
    obtain ⟨hanswer, halike⟩ := h.perform hc
    rw [hs.plain_perform, ht.plain_perform] at hanswer halike
    have hs' := hs.perform .dense c
    have ht' := ht.perform .mapped c
    exact .cons ⟨hanswer, halike.interchangeable hs' ht'⟩ (ih hs' ht' halike hrest)

/-- A mapped vector behaves like a dense one: a program over a family of vectors, views and own lines
mixed as one likes, comes to the same results, failures and entries with mapped vectors as with dense
ones, and any of them can be turned into a dense one at any time. -/
theorem mapped_behaves_like_dense (family : Name → Prop) (calls : List (VectorCall p))
    (typed : ∀ c ∈ calls, c.Typed family) :
    List.Forall₂ (fun d m => d.1 = m.1 ∧ Interchangeable family d.2 m.2)
      (({} : Store p).performAll .dense calls) (({} : Store p).performAll .mapped calls) :=
  Alike.start.performAll Store.sound_start Store.sound_start typed

/-- A view, a clone of it and an own line; the clone is changed by the view and read out of range. -/
def mixedCalls : List (VectorCall .double) :=
  [.lend "memory" #[.zero, .unit, .zero], .spanning (.buffer "memory" 1 3) "v", .clone "v" "w",
    .ofValues "x" #[.unit, .unit], .edit "w" (.axpy .unit "v"), .same "v" "w",
    .edit "w" (.set 2 .zero), .intoDense "v" "d", .assign "x" "d"]

theorem mapped_behaves_like_dense_mixedCalls :
    (∀ c ∈ mixedCalls, c.Typed (· ∈ ["v", "w", "x"])) ∧
    List.Forall₂ (fun d m => d.1 = m.1 ∧ Interchangeable (· ∈ ["v", "w", "x"]) d.2 m.2)
      (({} : Store .double).performAll .dense mixedCalls)
      (({} : Store .double).performAll .mapped mixedCalls) := by
  have typed : ∀ c ∈ mixedCalls, c.Typed (· ∈ ["v", "w", "x"]) := by
    simp [mixedCalls, VectorCall.Typed, VectorEdit.Typed]
  exact ⟨typed, mapped_behaves_like_dense _ mixedCalls typed⟩

end CowArrays
