import CowArrays.Proofs.Sharing.Abstraction

/-!
Each change of a store stands for the change of plain values of the same name. The only changes that
write a content are edits, and an edit writes it behind `Store.makeOwn`, when its container is alone
on its cell.
-/

namespace CowArrays.Store

variable {p : Precision} {s t : Store p} {kind : Kind}

theorem Sound.item?_of_find? (hs : s.Sound) {name : Name} {b : Binding p}
    (hb : s.find? name = some b) :
    ∃ i, s.plain.item? name = some i ∧ s.item b = some i := by
  obtain ⟨i, hi⟩ := hs.item_of_find? hb
  exact ⟨i, by simp [plain, hb, hi], hi⟩

theorem payload_ofPayload (x : Payload p) : s.payload (.ofPayload x) = x.owned := by
  cases x <;> rfl

theorem payload_owned (x : Content p) : s.payload (x.owned s.octets) = (s.payload x).owned := by
  cases x <;> rfl

/-! ### Fresh cells and shared cells -/

theorem payload?_allocate (name : Name) (binding : CellId → Binding p) (x : Content p) :
    (s.allocate name binding x).payload? s.cells.size = some (s.payload x) := by
  have hpayload : (s.allocate name binding x).payload x = s.payload x := by
    unfold payload octets
    rw [(memory_allocate name binding x).1]
  rw [payload?_eq, content?_allocate, if_pos rfl, Option.map_some, hpayload]

theorem Sound.plain_allocate_eq (hs : s.Sound) (name : Name) {binding : CellId → Binding p}
    {x : Content p} {i : Item p}
    (hi : (s.allocate name binding x).item (binding s.cells.size) = some i) :
    (s.allocate name binding x).plain = s.plain.set name i :=
  hs.plain_eq_set (extends_allocate name binding x) (memory_allocate name binding x).2
    (find?_allocate name · binding x) hi

theorem Sound.plain_allocate (hs : s.Sound) (name : Name) (kind : Kind) (x : Content p) :
    (s.allocate name (.container kind) x).plain =
      s.plain.set name (.container kind (s.payload x)) :=
  hs.plain_allocate_eq name (by simp [item, payload?_allocate])

theorem Sound.plain_allocate_shared (hs : s.Sound) (name : Name) (x : Content p) :
    (s.allocate name .shared x).plain = s.plain.set name (.shared (s.payload x)) :=
  hs.plain_allocate_eq name (by simp [item, payload?_allocate])

theorem Sound.plain_bind (hs : s.Sound) (name : Name) {b : Binding p} {i : Item p}
    (hb : b.Backed s.sources.size) (hi : s.item b = some i) :
    (s.bind name b).plain = s.plain.set name i :=
  hs.plain_eq_set (extends_bind name b) (memory_bind name b).2 (find?_bind name · b)
    ((extends_bind name b).item hs.backed hb hi)

/-- A binding made of another stands for the item made of its item. -/
def Derives (s : Store p) (f : Binding p → Option (Binding p)) (g : Item p → Option (Item p)) :
    Prop :=
  ∀ b i, s.item b = some i → (f b).bind s.item = g i ∧ ((f b).isSome → (g i).isSome)

theorem derives_toContainer? (kind : Kind) :
    s.Derives (Binding.toContainer? kind) (Item.toContainer? kind) := by
  intro b i hi
  cases b with
  | container _ c | shared c | observer c =>
    obtain ⟨x, hx, rfl⟩ := Option.map_eq_some_iff.1 hi
    simp [Binding.toContainer?, Binding.owned?, Item.toContainer?, Item.owned?, item, hx]
  | pattern x | buffer source =>
    obtain rfl := Option.some.inj hi
    exact ⟨rfl, fun h => absurd h Bool.false_ne_true⟩

theorem derives_toShared? : s.Derives Binding.toShared? Item.toShared? := by
  intro b i hi
  cases b with
  | container _ c | shared c | observer c =>
    obtain ⟨x, hx, rfl⟩ := Option.map_eq_some_iff.1 hi
    simp [Binding.toShared?, Binding.cell?, Binding.owned?, Binding.observed?, Item.toShared?,
      Item.payload?, item, hx]
  | pattern x | buffer source =>
    obtain rfl := Option.some.inj hi
    exact ⟨rfl, fun h => absurd h Bool.false_ne_true⟩

theorem derives_toObserver? : s.Derives Binding.toObserver? Item.toObserver? := by
  intro b i hi
  cases b with
  | container _ c | shared c | observer c =>
    obtain ⟨x, hx, rfl⟩ := Option.map_eq_some_iff.1 hi
    simp [Binding.toObserver?, Binding.owned?, Item.toObserver?, Item.owned?, item, hx]
  | pattern x | buffer source =>
    obtain rfl := Option.some.inj hi
    exact ⟨rfl, fun h => absurd h Bool.false_ne_true⟩

/-- Binding a name to the cell of a variable copies what this variable stands for. -/
theorem Sound.plain_derive (hs : s.Sound) (name source : Name)
    {f : Binding p → Option (Binding p)} {g : Item p → Option (Item p)} (hfg : s.Derives f g)
    (hf : ∀ b b', f b = some b' → b'.Backed s.sources.size) :
    (s.derive name source f).plain = s.plain.derive name source g := by
  unfold derive Plain.derive
  cases hb : s.find? source with
  | none =>
    have hnone : s.plain.item? source = none := by simp [plain, hb]
    simp [hnone]
  | some b =>
    obtain ⟨i, hplain, hi⟩ := hs.item?_of_find? hb
    have ⟨hbind, hsome⟩ := hfg b i hi
    rw [hplain, Option.bind_some, Option.bind_some]
    cases hfb : f b with
    | none =>
      have hg : g i = none := by rw [← hbind, hfb]; rfl
      rw [hg]
    | some b' =>
      obtain ⟨i', hi'⟩ := Option.isSome_iff_exists.1 (hsome (by rw [hfb]; rfl))
      rw [hi']
      have hitem : s.item b' = some i' := by rw [← hi', ← hbind, hfb]; rfl
      exact hs.plain_bind name (hf b b' hfb) hitem

/-! ### Variables and files -/

theorem Sound.plain_unbind (hs : s.Sound) (name : Name) :
    (s.unbind name).plain = s.plain.remove name := by
  refine Plain.ext (funext fun n => ?_)
    (hs.file?_of_extends (extends_unbind name) (memory_unbind name).2)
  by_cases hn : n = name
  · simp [plain, Plain.remove, find?_unbind, hn]
  · rw [hs.item?_of_extends (extends_unbind name) (by rw [find?_unbind, if_neg hn])]
    simp [Plain.remove, hn]

theorem Sound.plain_rename (hs : s.Sound) (name target : Name) :
    (s.rename name target).plain = s.plain.rename name target := by
  unfold Plain.rename
  cases hb : s.find? name with
  | none =>
    have hnone : s.plain.item? name = none := by simp [plain, hb]
    simp [rename, hb, hnone]
  | some b =>
    obtain ⟨i, hplain, hi⟩ := hs.item?_of_find? hb
    have hext := extends_rename (s := s) name target
    have hfiles : (s.rename name target).files = s.files := by simp [rename, hb, retain]
    rw [hplain]
    refine Plain.ext (funext fun n => ?_) (hs.file?_of_extends hext hfiles)
    -- the target stands for what the name stood for, and the name for nothing
    by_cases ht : n = target
    · have hitem := hext.item hs.backed (hs.backed.binding name b hb) hi
      simp [plain, Plain.set, find?_rename hb, ht, hitem]
    · by_cases hn : n = name
      · simp [plain, Plain.set, Plain.remove, find?_rename hb, hn, hn ▸ ht]
      · rw [hs.item?_of_extends hext (by rw [find?_rename hb, if_neg ht, if_neg hn])]
        simp [Plain.set, Plain.remove, ht, hn]

theorem Sound.plain_addSource (hs : s.Sound) (octets : Octets) :
    (s.addSource octets).2.plain = s.plain :=
  Plain.ext (funext fun _ => hs.item?_of_extends (extends_addSource octets) rfl)
    (hs.file?_of_extends (extends_addSource octets) rfl)

theorem octets_addSource (octets : Octets) :
    (s.addSource octets).2.octets s.sources.size = octets := by
  simp [addSource, Store.octets]

theorem Sound.plain_putFile (hs : s.Sound) (name : Name) (octets : Octets) :
    (s.putFile name octets).plain = s.plain.putFile name octets := by
  have hadd := hs.plain_addSource octets
  have hitem : (s.addSource octets).2.plain.item? = s.plain.item? := by rw [hadd]
  refine Plain.ext hitem (funext fun n => ?_)
  show ((s.putFile name octets).files.lookup n).map (s.addSource octets).2.octets =
    if n = name then some octets else s.plain.file? n
  by_cases hn : n = name
  · rw [if_pos hn]
    simp [putFile, hn, addSource, Store.octets]
  · have hfile := congrFun (congrArg Plain.file? hadd) n
    rw [if_neg hn, ← hfile]
    simp [putFile, addSource, List.lookup_cons, beq_false_of_ne hn, lookup_filter_ne, hn, plain]

theorem Sound.resolve_plain (hs : s.Sound) (origin : Origin) :
    s.plain.resolve origin = (s.resolve origin).map fun x => x.2.octets x.1 := by
  cases origin with
  | buffer name =>
    cases hb : s.find? name with
    | none => simp [resolve, Plain.resolve, plain, hb]
    | some b =>
      obtain ⟨i, hplain, hi⟩ := hs.item?_of_find? hb
      simp only [resolve, Plain.resolve, hb, hplain]
      cases b with
      | container _ c | shared c | observer c =>
        obtain ⟨x, -, rfl⟩ := Option.map_eq_some_iff.1 hi
        rfl
      | pattern x | buffer source =>
        obtain rfl := Option.some.inj hi
        rfl
  | file name => simp [resolve, Plain.resolve, plain, Function.comp_def]
  | octets octets => exact congrArg some (octets_addSource octets).symm

theorem Sound.resolve (hs : s.Sound) {origin : Origin} {source : SourceId}
    (h : s.resolve origin = some (source, t)) : t.Sound ∧ source < t.sources.size ∧
      t.plain = s.plain := by
  have ⟨hb, hlt⟩ := hs.backed.resolve h
  refine ⟨⟨hs.accounted.resolve h, hb⟩, hlt, ?_⟩
  rcases resolve_cases h with rfl | ⟨octets, rfl⟩
  · rfl
  · exact hs.plain_addSource octets

/-! ### Edits -/

theorem Sound.plain_makeUnique (hs : s.Sound) (name : Name) :
    (s.makeUnique name).plain = s.plain := by
  rcases makeUnique_cases s name with heq | ⟨kind, c, x, hc, hx, heq⟩
  · rw [heq]
  · have hpayload : s.payload? c = some (s.payload x.content) := by rw [payload?, hx]; rfl
    have hitem : s.plain.item? name = some (.container kind (s.payload x.content)) := by
      simp [plain, hc, item, hpayload]
    rw [heq, hs.plain_allocate name kind x.content, Plain.set_self hitem]

/-- Writing the content of a cell that a container is alone on sets this container only. -/
theorem Sound.plain_modifyContent (hs : s.Sound) {name : Name} {d : CellId}
    (hd : s.find? name = some (.container kind d)) (hu : s.isUnique d = true) {x : Content p}
    (hx : s.content? d = some x) (f : Content p → Content p) :
    (s.modifyContent name f).plain = s.plain.set name (.container kind (s.payload (f x))) := by
  have hoctets : (s.modifyContent name f).octets = s.octets := by
    unfold octets
    rw [(memory_modifyContent name f).1]
  have hpayload : (s.modifyContent name f).payload = s.payload := by
    unfold payload
    rw [hoctets]
  have hcell (c : CellId) (hc : c ≠ d) :
      (s.modifyContent name f).payload? c = s.payload? c := by
    rw [payload?_eq, payload?_eq, content?_modifyContent hd, if_neg hc, hpayload]
  refine Plain.ext (funext fun n => ?_) ?_
  · show ((s.modifyContent name f).find? n).bind (s.modifyContent name f).item = _
    rw [find?_modifyContent]
    by_cases hn : n = name
    · have hwritten : (s.modifyContent name f).payload? d = some (s.payload (f x)) := by
        rw [payload?_eq, content?_modifyContent hd, if_pos rfl, hx, hpayload]
        rfl
      simp [Plain.set, hn, hd, item, hwritten]
    · rw [show (s.plain.set name _).item? n = s.plain.item? n from if_neg hn]
      show (s.find? n).bind (s.modifyContent name f).item = (s.find? n).bind s.item
      cases hb : s.find? n with
      | none => rfl
      | some b =>
        -- no other variable is on the cell that is written
        have hoff (c : CellId) (hc : b.cell? = some c) : c ≠ d := by
          rintro rfl
          exact hn ((hs.accounted.isUnique_iff hd).1 hu n (on_of_find? hb hc))
        cases b with
        | container _ c | shared c | observer c =>
          simp only [Option.bind_some, item, hcell c (hoff c rfl)]
        | pattern y => rfl
        | buffer source => simp only [Option.bind_some, item, hoctets]
  · show (fun n => ((s.modifyContent name f).files.lookup n).map _) = _
    rw [(memory_modifyContent name f).2, hoctets]
    rfl

theorem item?_of_content? {name : Name} {d : CellId} {x : Content p}
    (hd : s.find? name = some (.container kind d)) (hx : s.content? d = some x) :
    s.plain.item? name = some (.container kind (s.payload x)) := by
  simp [plain, hd, item, payload?_eq, hx]

theorem Sound.makeUnique (hs : s.Sound) (name : Name) : (s.makeUnique name).Sound :=
  ⟨hs.accounted.makeUnique name, hs.backed.makeUnique name⟩

theorem Sound.makeOwn (hs : s.Sound) (name : Name) : (s.makeOwn name).Sound :=
  ⟨hs.accounted.makeOwn name, hs.backed.makeOwn name⟩

theorem Sound.content?_of_container (hs : s.Sound) {name : Name} {d : CellId}
    (hd : s.find? name = some (.container kind d)) : ∃ x, s.content? d = some x :=
  content?_of_lt (hs.accounted.lt_of_on (on_of_find? hd rfl))

theorem item?_of_not_container {name : Name}
    (h : ∀ kind c, s.find? name ≠ some (.container kind c)) (kind : Kind) (x : Payload p) :
    s.plain.item? name ≠ some (.container kind x) := by
  intro hx
  obtain ⟨b, hb, hi⟩ := Option.bind_eq_some_iff.1 hx
  cases b with
  | container k c => exact h k c hb
  | shared c | observer c =>
    obtain ⟨_, -, hne⟩ := Option.map_eq_some_iff.1 hi
    cases hne
  | pattern y | buffer source => cases hi

theorem Sound.plain_makeOwn (hs : s.Sound) (name : Name) :
    (s.makeOwn name).plain = s.plain.own name := by
  rcases container_or_not s name with ⟨kind, c, hc⟩ | hno
  · -- first it gets a cell of its own, which stands for the same, then it is written there alone
    have hu := hs.makeUnique name
    obtain ⟨d, hd, hunique⟩ := hs.accounted.isUnique_makeUnique hc
    obtain ⟨x, hx⟩ := hu.content?_of_container hd
    have hitem := item?_of_content? hd hx
    rw [hs.plain_makeUnique] at hitem
    rw [Store.makeOwn, hu.plain_modifyContent hd hunique hx, payload_owned, hs.plain_makeUnique]
    simp only [Plain.own, hitem]
  · rw [makeOwn_of_not_container hno]
    unfold Plain.own
    split
    · rename_i kind x hx
      exact absurd hx (item?_of_not_container hno kind x)
    · rfl

theorem Sound.plain_put (hs : s.Sound) {name : Name}
    (hu : ∀ kind d, s.find? name = some (.container kind d) → s.isUnique d = true) (x : Payload p) :
    (s.modifyContent name fun _ => .ofPayload x).plain = s.plain.put name x.owned := by
  unfold Plain.put
  rcases container_or_not s name with ⟨kind, d, hd⟩ | hno
  · obtain ⟨y, hy⟩ := hs.content?_of_container hd
    rw [hs.plain_modifyContent hd (hu kind d hd) hy, payload_ofPayload, item?_of_content? hd hy]
  · rw [modifyContent_of_not_container hno]
    split
    · rename_i kind y hy
      exact absurd hy (item?_of_not_container hno kind y)
    · rfl

theorem Sound.plain_settle (hs : s.Sound) {name : Name}
    (hu : ∀ kind d, s.find? name = some (.container kind d) → s.isUnique d = true) (e : Edited p) :
    (s.settle name e).plain = s.plain.settle name e := by
  have hput := hs.plain_put hu e.payload
  have hsound : (s.modifyContent name fun _ => .ofPayload e.payload).Sound :=
    ⟨hs.accounted.modifyContent name _,
      hs.backed.modifyContent name fun _ => Content.backed_ofPayload e.payload _⟩
  unfold settle Plain.settle
  rw [← hput]
  cases e.pattern with
  | none => rfl
  | some y => exact hsound.plain_bind y.1 trivial rfl

theorem reading_own (s : Plain p) (name : Name) :
    (s.own name).reading = s.reading.own name := by
  have hvalue (n : Name) : (s.own name).reading.value? n = (s.reading.own name).value? n := by
    unfold Plain.own Reading.own
    cases hi : s.item? name with
    | none => by_cases hn : n = name <;> simp [Plain.reading, hn, hi]
    | some i =>
      cases i <;> by_cases hn : n = name <;> simp [Plain.reading, Plain.set, hn, hi, Item.value]
  have hfile : (s.own name).file? = s.file? := by
    unfold Plain.own
    split <;> rfl
  show (⟨(s.own name).reading.value?, (s.own name).file?⟩ : Reading p) = _
  rw [funext hvalue, hfile]
  rfl

/-- What an edit finds to read is what it finds in plain values. -/
theorem Sound.reading_makeOwn (hs : s.Sound) (name : Name) :
    (s.makeOwn name).reading = s.reading.own name := by
  rw [← (hs.makeOwn name).reading_plain, hs.plain_makeOwn, reading_own, hs.reading_plain]

/-- A container that is to be edited is alone on its cell by then. -/
theorem Sound.isUnique_of_makeOwn (hs : s.Sound) {name : Name} {d : CellId}
    (hd : (s.makeOwn name).find? name = some (.container kind d)) :
    (s.makeOwn name).isUnique d = true := by
  rcases container_or_not s name with ⟨kind, c, hc⟩ | hno
  · obtain ⟨d', hd', hu⟩ := hs.accounted.isUnique_makeOwn hc
    obtain ⟨-, rfl⟩ := Binding.container.inj (Option.some.inj (hd.symm.trans hd'))
    exact hu
  · rw [makeOwn_of_not_container hno] at hd
    exact absurd hd (hno kind d)

/-- An edit that succeeds on plain values succeeds, and stands for it. -/
theorem Sound.edit_plain (hs : s.Sound) {name : Name} {run : Reading p → Attempt (Edited p)}
    {e : Edited p} (he : run (s.reading.own name) = .ok e) :
    s.edit name run = (.ok (), (s.makeOwn name).settle name e) ∧
      s.plain.edit name run = (.ok (), (s.plain.own name).settle name e) ∧
      ((s.makeOwn name).settle name e).plain = (s.plain.own name).settle name e := by
  have hrun : run (s.makeOwn name).reading = .ok e := by rw [hs.reading_makeOwn, he]
  have hplain : run (s.plain.own name).reading = .ok e := by
    rw [reading_own, hs.reading_plain, he]
  refine ⟨edit_of_ok hrun, ?_, ?_⟩
  · simp only [Plain.edit, hplain]
  · rw [(hs.makeOwn name).plain_settle fun _ d => hs.isUnique_of_makeOwn, hs.plain_makeOwn]

end CowArrays.Store
