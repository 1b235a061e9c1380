import CowArrays.Proofs.Storage.Octets
import CowArrays.Proofs.Views.History

/-!
Views of octets show what their octets spell. A step that views octets as scalars succeeds where a cast
does and shows what the cast comes to, octets that are lent and the contents of a file alike; and a
file of scalars, however many steps later it is viewed, shows the scalars that were written.
-/

namespace CowArrays

variable {p : Precision}

/-- What a cast of octets at an address comes to: they are scalars if they are aligned and no scalar is
cut off. -/
def castAt (p : Precision) (address : Nat) (octets : Octets) : Attempt (List (Scalar p)) :=
  if p.byteSize ∣ address ∧ p.byteSize ∣ octets.length then
    .ok (Scalar.decode (octets.length / p.byteSize) octets)
  else .error (.refused .misaligned)

/-- Behind an address that eight divides, offsets are aligned as the addresses there are. -/
theorem cast_eq_castAt {address : Nat} (h : 8 ∣ address) (slice : Slice) :
    cast p slice = castAt p (address + slice.offset) slice.octets := by
  have hsize : p.byteSize ∣ 8 := by cases p <;> decide
  simp only [castAt, Nat.dvd_add_right (hsize.trans h)]
  split
  · rename_i hfits
    exact cast_eq_ok.2 ⟨hfits.1, Scalar.encode_decode (Nat.div_mul_cancel hfits.2).symm⟩
  · rename_i hfits
    exact cast_eq_misaligned hfits

namespace Store

variable {s : Store p}

/-- A step leaves a view of the scalars that a cast comes to, or fails as the cast does and leaves the
store as it is. -/
def Shows (s : Store p) (u : Step p) (out : Name) : Attempt (List (Scalar p)) → Prop
  | .ok xs => ∃ t, s.step u = (.ok .done, t) ∧ t.reading.mapped out = .ok (xs.toArray, true)
  | .error failure => s.step u = (.error failure, s)

/-- A step that plans a view leaves it under its name. -/
theorem Sound.step_view (hs : s.Sound) {u : Step p} {out : Name} {origin : Origin} {octets : Octets}
    {offset count : Nat} (hplan : s.plan u = .ok (.change [.view out origin offset count]))
    (hr : s.plain.resolve origin = some octets) :
    ∃ t, s.step u = (.ok .done, t) ∧
      t.reading.mapped out = .ok (.ofOctets octets offset count, true) := by
  have hplain : s.plain.applyAll [.view out origin offset count] =
      (.ok (), (s.applyAll [.view out origin offset count]).2.plain) :=
    (hs.plain_applyAll (plan_sure hplan)).2
  have hview : s.plain.applyAll [.view out origin offset count] =
      (.ok (), s.plain.set out
        (.container .mapped (.mapped (.ofOctets octets offset count) true))) := by
    simp only [Plain.applyAll, Plain.apply, hr]
  obtain ⟨-, hset⟩ := Prod.mk.inj (hview.symm.trans hplain)
  have ht := hs.applyAll [.view out origin offset count]
  refine ⟨_, hs.step_eq hplan, Reading.mapped_eq_ok.2 ?_⟩
  show (s.applyAll [.view out origin offset count]).2.reading.value? out = _
  rw [← ht.reading_plain, ← hset]
  simp [Plain.set, Plain.reading, Item.value]

/-- A step that views octets where a cast succeeds shows what the cast comes to. -/
theorem Sound.shows_cast (hs : s.Sound) {u : Step p} {out : Name} {slice : Slice}
    (origin : Origin) (hr : s.plain.resolve origin = some slice.whole)
    (hplan : s.plan u = do
      let count ← castCount p slice
      return .change [.view out origin slice.offset count]) :
    s.Shows u out (cast p slice) := by
  rw [cast]
  cases hcount : castCount p slice with
  | error failure =>
    rw [hcount] at hplan
    exact step_of_error hplan
  | ok count =>
    rw [hcount] at hplan
    exact hs.step_view hplan hr

theorem Sound.shows_viewOctets (hs : s.Sound) (slice : Slice) (out : Name) :
    s.Shows (.act (.vector (.viewOctets slice out))) out (cast p slice) :=
  hs.shows_cast (.octets slice.whole) rfl rfl

theorem Sound.shows_viewFile (hs : s.Sound) {file : Name} {octets : Octets}
    (hfile : s.reading.file file = .ok octets) (out : Name) :
    s.Shows (.act (.vector (.viewFile file out))) out (cast p (.all octets)) := by
  refine hs.shows_cast (.file file) ?_ ?_
  · rw [← hs.reading_plain] at hfile
    exact Reading.file_eq_ok.1 hfile
  · show (VectorStep.viewFile file out).plan s.reading = _
    rw [VectorStep.plan, hfile]
    rfl

def writeStep (file : Name) (xs : List (Scalar p)) : Step p :=
  .act (.memory (.writeScalars file xs.toArray))

theorem Sound.step_write (hs : s.Sound) (file : Name) (xs : List (Scalar p)) :
    (s.step (writeStep file xs)).1 = .ok .done ∧
      (s.step (writeStep file xs)).2.reading.file file = .ok (Scalar.encode xs) := by
  have hplan : s.plan (writeStep file xs) = .ok (.change [.putFile file (Scalar.encode xs)]) := rfl
  have hstep : s.step (writeStep file xs) = (.ok .done, s.putFile file (Scalar.encode xs)) :=
    hs.step_eq hplan
  have ht := hs.step (writeStep file xs)
  rw [hstep] at ht ⊢
  refine ⟨rfl, Reading.file_eq_ok.2 ?_⟩
  rw [← ht.reading_plain, hs.plain_putFile]
  exact if_pos rfl

/-- Steps that do not write a file leave its contents. -/
theorem Reachable.file_after (h : s.Reachable) {file : Name} {more : List (Step p)}
    (hmore : ∀ t ∈ more, file ∉ t.writes) :
    (s.after more).reading.file file = s.reading.file file := by
  induction more generalizing s with
  | nil => rfl
  | cons t more ih =>
    obtain ⟨ht, hrest⟩ := List.forall_mem_cons.1 hmore
    refine (ih (.step t h) hrest).trans ?_
    rw [Reading.file, Reading.file, h.file?_step t ht]

/-- A file of scalars shows them, whatever happened since it was written. -/
theorem Reachable.shows_written (h : s.Reachable) (file : Name) (xs : List (Scalar p))
    {more : List (Step p)} (hmore : ∀ t ∈ more, file ∉ t.writes) (out : Name) :
    ((s.step (writeStep file xs)).2.after more).Shows (.act (.vector (.viewFile file out))) out
      (.ok xs) := by
  have hwritten : (s.step (writeStep file xs)).2.Reachable := .step _ h
  have hfile := (hwritten.file_after hmore).trans (h.sound.step_write file xs).2
  have hcast : cast p (.all (Scalar.encode xs)) = .ok xs := cast_eq_ok.2 ⟨Nat.dvd_zero _, rfl⟩
  rw [← hcast]
  exact (hwritten.after more).sound.shows_viewFile hfile out

end Store

/-- Views of octets as scalars: when there is one, what it shows, and that files keep what was written. -/
structure CastLaws (p : Precision) : Prop where
  /-- Alignment is that of the address, where the whole starts at one that eight divides. -/
  placed : ∀ address (s : Slice), 8 ∣ address →
    cast p s = castAt p (address + s.offset) s.octets
  succeeds : ∀ s : Slice, (∃ xs, cast p s = .ok xs) ↔
    p.byteSize ∣ s.offset ∧ p.byteSize ∣ s.octets.length
  refused : ∀ s : Slice, ¬(p.byteSize ∣ s.offset ∧ p.byteSize ∣ s.octets.length) →
    cast p s = .error (.refused .misaligned)
  /-- The scalars are those that are written with these octets. -/
  exact : ∀ (s : Slice) xs, cast p s = .ok xs ↔
    p.byteSize ∣ s.offset ∧ Scalar.encode xs = s.octets
  /-- What lies behind a later offset of the same octets is the end of what lies behind an earlier
  one. -/
  suffix : ∀ (s t : Slice) xs ys, s.whole = t.whole → s.offset ≤ t.offset → cast p s = .ok xs →
    cast p t = .ok ys → ys <:+ xs
  /-- Octets that are lent are shown as what they are cast to, and so is the contents of a file. -/
  lent : ∀ (s : Store p) slice out, s.Reachable →
    s.Shows (.act (.vector (.viewOctets slice out))) out (cast p slice)
  opened : ∀ (s : Store p) file octets out, s.Reachable → s.reading.file file = .ok octets →
    s.Shows (.act (.vector (.viewFile file out))) out (cast p (.all octets))
  /-- A file of scalars has their octets. It is shown as these scalars, until it is written anew. -/
  written : ∀ (s : Store p) file xs, s.Reachable →
    (s.step (Store.writeStep file xs)).1 = .ok .done ∧
      (s.step (Store.writeStep file xs)).2.reading.file file = .ok (Scalar.encode xs) ∧
      ∀ more out, (∀ t ∈ more, file ∉ t.writes) →
        ((s.step (Store.writeStep file xs)).2.after more).Shows
          (.act (.vector (.viewFile file out))) out (.ok xs)

/-- Octets are viewed as the scalars that they were written as. -/
theorem castLaws (p : Precision) : CastLaws p where
  placed _ slice h := cast_eq_castAt h slice
  succeeds _ := exists_cast_iff
  refused _ := cast_eq_misaligned
  exact _ _ := cast_eq_ok
  suffix _ _ _ _ := suffix_of_cast
  lent _ slice out hs := hs.sound.shows_viewOctets slice out
  opened _ _ _ out hs hfile := hs.sound.shows_viewFile hfile out
  written _ file xs hs := by
    obtain ⟨hdone, hfile⟩ := hs.sound.step_write file xs
    exact ⟨hdone, hfile, fun _ out hmore => hs.shows_written file xs hmore out⟩

end CowArrays
