import CowArrays.Proofs.Sharing.Variables

/-!
The counts of a store are exact: every cell counts as many owners and observers as there are live
variables that own or observe it. While a reference moves from one variable to another it is counted
but bound to no name, so the invariant that the operations keep speaks of references in transit.
-/

namespace CowArrays

theorem countP_filter_ne {α : Type} {xs : List (Name × α)} (h : (xs.map Prod.fst).Nodup)
    (q : α → Bool) (name : Name) :
    xs.countP (fun x => q x.2) = (xs.filter (·.1 != name)).countP (fun x => q x.2) +
      (xs.lookup name).elim 0 fun a => if q a then 1 else 0 := by
  induction xs with
  | nil => rfl
  | cons x xs ih =>
    obtain ⟨hx, hxs⟩ := List.nodup_cons.1 h
    rw [List.countP_cons, ih hxs, List.lookup_cons]
    by_cases hn : name = x.1
    · have hnone : xs.lookup x.1 = none := lookup_eq_none_of_not_mem hx
      simp [hn, hnone]
    · have hne : (x.1 != name) = true := by simpa using fun e : x.1 = name => hn e.symm
      rw [List.filter_cons, if_pos hne, List.countP_cons, beq_false_of_ne hn]
      dsimp only
      omega

namespace Store

variable {p : Precision} {s : Store p} {transit : List (Binding p)}

def live (s : Store p) (q : Binding p → Bool) : Nat := s.bindings.countP fun x => q x.2

theorem live_unbind (h : s.Distinct) (q : Binding p → Bool) (name : Name) :
    s.live q = (s.unbind name).live q + (s.find? name).elim 0 fun b => if q b then 1 else 0 := by
  unfold live
  rw [bindings_unbind]
  exact countP_filter_ne h q name

theorem live_attach (q : Binding p → Bool) (name : Name) (b : Binding p) :
    (s.attach name b).live q = (s.unbind name).live q + if q b then 1 else 0 := by
  simp [live, attach, List.countP_cons]

theorem live_pos {q : Binding p → Bool} {name : Name} {b : Binding p}
    (hb : s.find? name = some b) (hq : q b = true) : 0 < s.live q := by
  refine List.countP_pos_iff.2 ⟨(name, b), ?_, hq⟩
  obtain ⟨l, r, h, -⟩ := List.lookup_eq_some_iff.1 hb
  simp [h]

theorem live_eq_zero_iff (h : s.Distinct) {q : Binding p → Bool} :
    s.live q = 0 ↔ ∀ name b, s.find? name = some b → q b = false := by
  constructor
  · intro h0 name b hb
    by_contra hq
    have := live_pos hb (eq_true_of_ne_false hq)
    omega
  · intro hall
    refine List.countP_eq_zero.2 fun x hx => ?_
    simp [hall x.1 x.2 ((mem_iff_find? h).1 hx)]

/-! ### Counts after each operation -/

def owns (c : CellId) (b : Binding p) : Bool := b.owned? == some c

def observes (c : CellId) (b : Binding p) : Bool := b.observed? == some c

def Made (s : Store p) (b : Binding p) : Prop := ∀ c, b.cell? = some c → c < s.cells.size

/-- The two ways of being on a cell, which are counted apart. -/
inductive Role
  | owner
  | observer

def Role.refers : Role → CellId → Binding p → Bool
  | owner => owns
  | observer => observes

def Role.count : Role → Cell p → Nat
  | owner => Cell.owners
  | observer => Cell.observers

/-- What a cell counts for a role. -/
def tally (s : Store p) (r : Role) (c : CellId) : Nat := (s.cells[c]?).elim 0 r.count

theorem cell?_eq_some_iff {b : Binding p} {c : CellId} :
    b.cell? = some c ↔ owns c b = true ∨ observes c b = true := by
  cases b <;> simp [Binding.cell?, owns, observes, Binding.owned?, Binding.observed?]

theorem refers_of_cell? {b : Binding p} {c : CellId} (h : b.cell? = some c) :
    ∃ r : Role, r.refers c b = true := by
  rcases cell?_eq_some_iff.1 h with ho | hw
  · exact ⟨.owner, ho⟩
  · exact ⟨.observer, hw⟩

theorem cell?_of_refers {r : Role} {b : Binding p} {c : CellId} (h : r.refers c b = true) :
    b.cell? = some c := by
  cases r with
  | owner => exact cell?_eq_some_iff.2 (.inl h)
  | observer => exact cell?_eq_some_iff.2 (.inr h)

@[simp] theorem size_recount (f : Nat → Nat) (b : Binding p) :
    (s.recount f b).cells.size = s.cells.size := by
  cases b <;> simp [recount]

theorem tally_eq_zero {r : Role} {c : CellId} (h : s.cells.size ≤ c) : s.tally r c = 0 := by
  simp [tally, h]

theorem lt_of_tally_pos {r : Role} {c : CellId} (h : 0 < s.tally r c) : c < s.cells.size := by
  by_contra hc
  rw [tally_eq_zero (Nat.le_of_not_lt hc)] at h
  exact Nat.lt_irrefl 0 h

theorem tally_modify (d : CellId) (f : Cell p → Cell p) (r : Role) (c : CellId) :
    ({ s with cells := s.cells.modify d f } : Store p).tally r c =
      (s.cells[c]?).elim 0 fun x => if d = c then r.count (f x) else r.count x := by
  simp only [tally, Array.getElem?_modify]
  split <;> cases s.cells[c]? <;> rfl

@[simp] theorem tally_modifyContent (name : Name) (f : Content p → Content p) (r : Role)
    (c : CellId) : (s.modifyContent name f).tally r c = s.tally r c := by
  unfold modifyContent
  split
  · rw [tally_modify]
    cases r <;> simp only [Role.count, ite_self] <;> rfl
  · rfl

/-- A reference is counted where it refers to, in its own role. -/
theorem tally_recount (f : Nat → Nat) (b : Binding p) (r : Role) {c : CellId}
    (h : c < s.cells.size) : (s.recount f b).tally r c =
      if r.refers c b then f (s.tally r c) else s.tally r c := by
  have hx := Array.getElem?_eq_getElem h
  cases b with
  | container _ d | shared d | observer d =>
    rw [recount, tally_modify, hx]
    cases r <;> simp [Role.refers, Role.count, owns, observes, Binding.owned?, Binding.observed?,
      tally, hx]
  | pattern _ | buffer _ => cases r <;> rfl

theorem tally_retain {b : Binding p} (hb : s.Made b) (r : Role) (c : CellId) :
    (s.retain b).tally r c = s.tally r c + if r.refers c b then 1 else 0 := by
  by_cases hc : c < s.cells.size
  · rw [retain, tally_recount _ _ _ hc]
    split <;> rfl
  · have hno : r.refers c b = false := eq_false_of_ne_true fun h => hc (hb c (cell?_of_refers h))
    have hle := Nat.le_of_not_lt hc
    rw [tally_eq_zero hle, tally_eq_zero (by simpa [retain] using hle), hno]
    rfl

theorem tally_release (b : Binding p) (r : Role) (c : CellId) :
    (s.release b).tally r c = s.tally r c - if r.refers c b then 1 else 0 := by
  by_cases hc : c < s.cells.size
  · rw [release, tally_recount _ _ _ hc]
    split <;> rfl
  · have hle := Nat.le_of_not_lt hc
    rw [tally_eq_zero hle, tally_eq_zero (by simpa [release] using hle), Nat.zero_sub]

theorem tally_unbind (name : Name) (r : Role) (c : CellId) :
    (s.unbind name).tally r c =
      s.tally r c - (s.find? name).elim 0 fun b => if r.refers c b then 1 else 0 := by
  unfold unbind
  cases s.find? name with
  | none => rfl
  | some b => exact tally_release b r c

/-! ### The invariant -/

/-- Each cell counts the variables that own it and those that observe it, and the references of
both sorts that are in transit. -/
structure Balanced (s : Store p) (transit : List (Binding p)) : Prop where
  distinct : s.Distinct
  tally_eq : ∀ r c, s.tally r c = s.live (r.refers c) + transit.countP (r.refers c)

/-- Each cell counts the variables that own it and those that observe it. -/
abbrev Accounted (s : Store p) : Prop := s.Balanced []

theorem accounted_start : ({} : Store p).Accounted :=
  ⟨List.nodup_nil, fun _ _ => rfl⟩

/-- The owners that a cell counts are the variables that own it. -/
theorem Accounted.strong_eq (h : s.Accounted) (c : CellId) : s.strong c = s.live (owns c) :=
  h.tally_eq .owner c

theorem Accounted.weak_eq (h : s.Accounted) (c : CellId) : s.weak c = s.live (observes c) :=
  h.tally_eq .observer c

namespace Balanced

theorem made (h : s.Balanced transit) {name : Name} {b : Binding p} (hb : s.find? name = some b) :
    s.Made b := by
  intro c hc
  obtain ⟨r, hr⟩ := refers_of_cell? hc
  have hlive : 0 < s.live (r.refers c) := live_pos hb hr
  have htally := h.tally_eq r c
  exact lt_of_tally_pos (r := r) (by omega)

theorem retain (h : s.Balanced transit) {b : Binding p} (hb : s.Made b) :
    (s.retain b).Balanced (b :: transit) := by
  refine ⟨distinct_recount h.distinct _ _, fun r c => ?_⟩
  have hlive : (s.retain b).live (r.refers c) = s.live (r.refers c) := by
    simp [live, Store.retain]
  rw [tally_retain hb, h.tally_eq, hlive, List.countP_cons, Nat.add_assoc]

theorem unbind (h : s.Balanced transit) (name : Name) : (s.unbind name).Balanced transit := by
  refine ⟨distinct_unbind h.distinct _, fun r c => ?_⟩
  rw [tally_unbind, h.tally_eq, live_unbind h.distinct _ name]
  omega

/-- A reference in transit arrives at the name that it is attached to. -/
theorem attach {b : Binding p} (h : s.Balanced (b :: transit)) (name : Name) :
    (s.attach name b).Balanced transit := by
  refine ⟨distinct_attach h.distinct _ _, fun r c => ?_⟩
  have hu := (h.unbind name).tally_eq r c
  rw [List.countP_cons] at hu
  rw [live_attach, show (s.attach name b).tally r c = (s.unbind name).tally r c from rfl]
  omega

theorem bind (h : s.Balanced transit) {b : Binding p} (hb : s.Made b) (name : Name) :
    (s.bind name b).Balanced transit :=
  (h.retain hb).attach name

theorem rename (h : s.Balanced transit) (name target : Name) :
    (s.rename name target).Balanced transit := by
  unfold Store.rename
  cases hb : s.find? name with
  | none => exact h
  | some b =>
    -- the reference is in transit from the one name to the other
    exact ((h.retain (h.made hb)).unbind name).attach target

theorem push (h : s.Balanced transit) (x : Content p) :
    ({ s with cells := s.cells.push ⟨x, 0, 0⟩ } : Store p).Balanced transit := by
  refine ⟨h.distinct, fun r c => Eq.trans ?_ (h.tally_eq r c)⟩
  by_cases hc : c = s.cells.size
  · cases r <;> simp [tally, Role.count, hc]
  · simp [tally, Array.getElem?_push, hc]

theorem allocate (h : s.Balanced transit) (name : Name) {binding : CellId → Binding p}
    (hb : (binding s.cells.size).cell? = some s.cells.size) (x : Content p) :
    (s.allocate name binding x).Balanced transit := by
  refine (h.push x).bind (fun c hc => ?_) name
  obtain rfl : s.cells.size = c := by simpa [hb] using hc
  simp

theorem modifyContent (h : s.Balanced transit) (name : Name) (f : Content p → Content p) :
    (s.modifyContent name f).Balanced transit := by
  refine ⟨by simpa [Distinct] using h.distinct, fun r c => ?_⟩
  rw [tally_modifyContent, h.tally_eq]
  simp [live]

theorem makeUnique (h : s.Balanced transit) (name : Name) :
    (s.makeUnique name).Balanced transit := by
  rcases makeUnique_cases s name with heq | ⟨kind, c, x, -, -, heq⟩
  · rwa [heq]
  · rw [heq]
    exact h.allocate name rfl _

theorem makeOwn (h : s.Balanced transit) (name : Name) : (s.makeOwn name).Balanced transit :=
  (h.makeUnique name).modifyContent name _

theorem setPattern (h : s.Balanced transit) (name : Name) (pattern : Pattern) :
    (s.setPattern name pattern).Balanced transit :=
  h.bind (b := .pattern pattern) (fun c hc => by cases hc) name

theorem settle (h : s.Balanced transit) (name : Name) (e : Edited p) :
    (s.settle name e).Balanced transit := by
  have hput := h.modifyContent name fun _ => .ofPayload e.payload
  unfold Store.settle
  cases he : e.pattern with
  | none => exact hput
  | some x => exact hput.setPattern x.1 x.2

theorem edit (h : s.Balanced transit) (name : Name) (run : Reading p → Attempt (Edited p)) :
    (s.edit name run).2.Balanced transit := by
  have hown := h.makeOwn name
  cases hr : run (s.makeOwn name).reading with
  | error failure =>
    rw [edit_of_error hr]
    exact hown
  | ok e =>
    rw [edit_of_ok hr]
    exact hown.settle name e

theorem addSource (h : s.Balanced transit) (octets : Octets) :
    (s.addSource octets).2.Balanced transit :=
  ⟨h.distinct, h.tally_eq⟩

theorem putFile (h : s.Balanced transit) (name : Name) (octets : Octets) :
    (s.putFile name octets).Balanced transit :=
  ⟨h.distinct, h.tally_eq⟩

theorem resolve (h : s.Balanced transit) {origin : Origin} {source : SourceId} {t : Store p}
    (ht : s.resolve origin = some (source, t)) : t.Balanced transit := by
  rcases resolve_cases ht with rfl | ⟨octets, rfl⟩
  · exact h
  · exact h.addSource octets

/-- What is made of a binding is on the cell of this binding. -/
theorem derive (h : s.Balanced transit) (name source : Name)
    {f : Binding p → Option (Binding p)}
    (hf : ∀ b b' c, f b = some b' → b'.cell? = some c → b.cell? = some c) :
    (s.derive name source f).Balanced transit := by
  unfold Store.derive
  split
  · rename_i b' hb'
    obtain ⟨b, hb, hbb⟩ := Option.bind_eq_some_iff.1 hb'
    exact h.bind (fun c hc => h.made hb c (hf b b' c hbb hc)) name
  · exact h

end Balanced

theorem cell?_of_toContainer? {kind : Kind} {b b' : Binding p} {c : CellId}
    (h : b.toContainer? kind = some b') (hc : b'.cell? = some c) : b.cell? = some c := by
  obtain ⟨d, hd, rfl⟩ := Option.map_eq_some_iff.1 h
  obtain rfl : d = c := Option.some.inj hc
  simp [Binding.cell?, hd]

theorem cell?_of_toShared? {b b' : Binding p} {c : CellId} (h : b.toShared? = some b')
    (hc : b'.cell? = some c) : b.cell? = some c := by
  obtain ⟨d, hd, rfl⟩ := Option.map_eq_some_iff.1 h
  obtain rfl : d = c := Option.some.inj hc
  exact hd

theorem cell?_of_toObserver? {b b' : Binding p} {c : CellId} (h : b.toObserver? = some b')
    (hc : b'.cell? = some c) : b.cell? = some c := by
  obtain ⟨d, hd, rfl⟩ := Option.map_eq_some_iff.1 h
  obtain rfl : d = c := Option.some.inj hc
  simp [Binding.cell?, hd]

theorem Balanced.apply (h : s.Balanced transit) (change : Change p) :
    (s.apply change).2.Balanced transit := by
  cases change with
  | create kind name x => exact h.allocate name rfl _
  | createShared name x => exact h.allocate name rfl _
  | view name origin offset count =>
    cases hr : s.resolve origin with
    | none => simpa [Store.apply, hr] using h
    | some x => simpa [Store.apply, hr] using (h.resolve hr).allocate name rfl _
  | join kind name source => exact h.derive name source fun _ _ _ => cell?_of_toContainer?
  | hold name source => exact h.derive name source fun _ _ _ => cell?_of_toShared?
  | observe name source => exact h.derive name source fun _ _ _ => cell?_of_toObserver?
  | edit name run => exact h.edit name run
  | setPattern name pattern => exact h.setPattern name pattern
  | lend name octets =>
    exact (h.addSource octets).bind (b := .buffer s.sources.size) (fun c hc => by cases hc) name
  | putFile name octets => exact h.putFile name octets
  | drop name => exact h.unbind name
  | rename name target => exact h.rename name target

end Store
end CowArrays
