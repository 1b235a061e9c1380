import CowArrays.Proofs.Sharing.Plain
import CowArrays.Proofs.Sharing.Sources

/-!
What a store stands for as plain values, and that each of its operations stands for the operation on
plain values of the same name. Uniqueness is what makes this true of a content that is written in
place: no other variable is on its cell.
-/

namespace CowArrays

variable {p : Precision}

theorem Plain.set_self {s : Plain p} {name : Name} {i : Item p} (h : s.item? name = some i) :
    s.set name i = s := by
  refine Plain.ext (funext fun n => ?_) rfl
  by_cases hn : n = name
  · simp [set, hn, h]
  · simp [set, hn]

namespace Store

variable {s t : Store p}

def item (s : Store p) : Binding p → Option (Item p)
  | .container kind c => (s.payload? c).map (.container kind)
  | .shared c => (s.payload? c).map .shared
  | .observer c => (s.payload? c).map .observer
  | .pattern x => some (.pattern x)
  | .buffer source => some (.buffer (s.octets source))

/-- The values that a store stands for. -/
def plain (s : Store p) : Plain p where
  item? name := (s.find? name).bind s.item
  file? name := (s.files.lookup name).map s.octets

theorem payload?_eq (c : CellId) : s.payload? c = (s.content? c).map s.payload := by
  simp [payload?, content?, Function.comp_def]

theorem value?_eq_container {name : Name} {kind : Kind} {x : Payload p} :
    s.reading.value? name = some (.container kind x) ↔
      ∃ d, s.find? name = some (.container kind d) ∧ s.payload? d = some x := by
  show (s.find? name).bind s.value = _ ↔ _
  constructor
  · intro h
    obtain ⟨b, hb, hbx⟩ := Option.bind_eq_some_iff.1 h
    cases b with
    | container k d =>
      obtain ⟨y, hy, heq⟩ := Option.map_eq_some_iff.1 hbx
      obtain ⟨rfl, rfl⟩ := Value.container.inj heq
      exact ⟨d, hb, hy⟩
    | shared d =>
      obtain ⟨_, -, hne⟩ := Option.map_eq_some_iff.1 hbx
      cases hne
    | observer d | pattern y | buffer source => cases hbx
  · rintro ⟨d, hd, hx⟩
    simp [hd, value, hx]

/-! ### Values across an extension -/

/-- Octets are the same wherever no source was written. -/
theorem octets_of_sources (h : ∀ (i : SourceId) (octets : Octets), s.sources[i]? = some octets →
      t.sources[i]? = some octets) {i : SourceId} (hi : i < s.sources.size) :
    t.octets i = s.octets i := by
  have hs := Array.getElem?_eq_getElem hi
  rw [Store.octets, Store.octets, hs, h i _ hs]

theorem payload_of_sources (h : ∀ (i : SourceId) (octets : Octets), s.sources[i]? = some octets →
      t.sources[i]? = some octets) {x : Content p} (hx : x.Backed s.sources.size) :
    t.payload x = s.payload x := by
  cases x with
  | mapped v =>
    cases v with
    | view span =>
      have ho := octets_of_sources h (show span.source < s.sources.size from hx)
      simp only [Store.payload, Mapped.line, ho]
    | own line => rfl
  | _ => rfl

theorem Extends.octets (h : s.Extends t) {i : SourceId} (hi : i < s.sources.size) :
    t.octets i = s.octets i :=
  octets_of_sources h.source hi

theorem Extends.payload? (h : s.Extends t) (hs : s.Backed) {c : CellId} {x : Payload p}
    (hx : s.payload? c = some x) : t.payload? c = some x := by
  rw [payload?_eq] at hx ⊢
  obtain ⟨y, hy, rfl⟩ := Option.map_eq_some_iff.1 hx
  rw [h.content c y hy, Option.map_some, payload_of_sources h.source (hs.content c y hy)]

theorem Extends.item (h : s.Extends t) (hs : s.Backed) {b : Binding p} {i : Item p}
    (hb : b.Backed s.sources.size) (hi : s.item b = some i) : t.item b = some i := by
  cases b with
  | buffer source =>
    rw [← hi, Store.item, Store.item, h.octets hb]
  | pattern x => exact hi
  | container _ c | shared c | observer c =>
    obtain ⟨x, hx, rfl⟩ := Option.map_eq_some_iff.1 hi
    simp [Store.item, h.payload? hs hx]

theorem Sound.payload?_of_on (hs : s.Sound) {c : CellId} {name : Name} (h : s.On c name) :
    ∃ x, s.payload? c = some x := by
  obtain ⟨x, hx⟩ := content?_of_lt (hs.accounted.lt_of_on h)
  exact ⟨s.payload x, by rw [payload?_eq, hx]; rfl⟩

theorem Sound.item_of_find? (hs : s.Sound) {name : Name} {b : Binding p}
    (hb : s.find? name = some b) : ∃ i, s.item b = some i := by
  cases b with
  | buffer source => exact ⟨_, rfl⟩
  | pattern x => exact ⟨_, rfl⟩
  | container _ c | shared c | observer c =>
    obtain ⟨x, hx⟩ := hs.payload?_of_on (on_of_find? hb rfl)
    exact Option.isSome_iff_exists.1 (by simp [item, hx])

/-- A variable that is bound as before stands for what it did. -/
theorem Sound.item?_of_extends (hs : s.Sound) (hst : s.Extends t) {n : Name}
    (hn : t.find? n = s.find? n) : t.plain.item? n = s.plain.item? n := by
  show (t.find? n).bind t.item = (s.find? n).bind s.item
  rw [hn]
  cases hb : s.find? n with
  | none => rfl
  | some b =>
    obtain ⟨i, hi⟩ := hs.item_of_find? hb
    exact (hst.item hs.backed (hs.backed.binding n b hb) hi).trans hi.symm

theorem Sound.file?_of_extends (hs : s.Sound) (hst : s.Extends t) (hf : t.files = s.files) :
    t.plain.file? = s.plain.file? := by
  funext n
  show (t.files.lookup n).map t.octets = (s.files.lookup n).map s.octets
  rw [hf]
  cases hi : s.files.lookup n with
  | none => rfl
  | some i => exact congrArg some (hst.octets (hs.backed.file n i hi))

/-- An extension that binds one name sets one variable. -/
theorem Sound.plain_eq_set (hs : s.Sound) (hst : s.Extends t) (hf : t.files = s.files) {name : Name}
    {b : Binding p} {i : Item p} (hb : ∀ n, t.find? n = if n = name then some b else s.find? n)
    (hi : t.item b = some i) : t.plain = s.plain.set name i := by
  refine Plain.ext (funext fun n => ?_) (hs.file?_of_extends hst hf)
  -- the name stands for what its binding does, every other name for what it stood for
  by_cases hn : n = name
  · subst hn
    have hbn : t.find? n = some b := (hb n).trans (if_pos rfl)
    show (t.find? n).bind t.item = if n = n then some i else s.plain.item? n
    rw [hbn, if_pos rfl]
    exact hi
  · have hbn : t.find? n = s.find? n := (hb n).trans (if_neg hn)
    rw [hs.item?_of_extends hst hbn]
    simp [Plain.set, hn]

/-- What a step can read of a store it can read of its plain values. -/
theorem Sound.reading_plain (hs : s.Sound) : s.plain.reading = s.reading := by
  have hvalue (n : Name) : s.plain.reading.value? n = s.reading.value? n := by
    show ((s.find? n).bind s.item).map Item.value = (s.find? n).bind s.value
    cases hb : s.find? n with
    | none => rfl
    | some b =>
      cases b with
      | observer c =>
        obtain ⟨x, hx⟩ := hs.payload?_of_on (on_of_find? hb rfl)
        simp [item, value, hx, Item.value]
      | container _ c | shared c =>
        simp only [Option.bind_some, item, value, Option.map_map]
        rfl
      | pattern x => rfl
      | buffer source => rfl
  exact congrArg (fun v => (⟨v, s.reading.file?⟩ : Reading p)) (funext hvalue)

end Store
end CowArrays
