import CowArrays.Proofs.Sharing.Contents

/-!
Every source that a store speaks of is there: those under views, under memory of the caller and
behind files. Together with exact counts this makes a store sound.
-/

namespace CowArrays

variable {p : Precision}

/-- Whether the source under a view is one of so many. -/
def Content.Backed (sources : Nat) : Content p → Prop
  | .mapped (.view span) => span.source < sources
  | _ => True

def Binding.Backed (sources : Nat) : Binding p → Prop
  | .buffer source => source < sources
  | _ => True

theorem Content.Backed.mono {x : Content p} {m n : Nat} (h : x.Backed m) (hmn : m ≤ n) :
    x.Backed n := by
  cases x with
  | mapped v =>
    cases v with
    | view span => exact Nat.lt_of_lt_of_le (show span.source < m from h) hmn
    | own line => trivial
  | _ => trivial

theorem Binding.Backed.mono {b : Binding p} {m n : Nat} (h : b.Backed m) (hmn : m ≤ n) :
    b.Backed n := by
  cases b with
  | buffer source => exact Nat.lt_of_lt_of_le h hmn
  | _ => trivial

theorem Content.backed_ofPayload (x : Payload p) (n : Nat) : (Content.ofPayload x).Backed n := by
  cases x <;> trivial

theorem Content.backed_owned (octets : SourceId → Octets) (x : Content p) (n : Nat) :
    (x.owned octets).Backed n := by
  cases x <;> trivial

namespace Store

variable {s t : Store p}

structure Backed (s : Store p) : Prop where
  content : ∀ c x, s.content? c = some x → x.Backed s.sources.size
  binding : ∀ name b, s.find? name = some b → b.Backed s.sources.size
  file : ∀ name source, s.files.lookup name = some source → source < s.sources.size

theorem backed_start : ({} : Store p).Backed :=
  ⟨fun _ _ h => by simp [content?] at h, fun _ _ h => by simp [find?] at h, fun _ _ h => by cases h⟩

namespace Backed

theorem recount (h : s.Backed) (f : Nat → Nat) (b : Binding p) : (s.recount f b).Backed :=
  ⟨by simpa using h.content, by simpa [find?] using h.binding, by simpa using h.file⟩

theorem unbind (h : s.Backed) (name : Name) : (s.unbind name).Backed := by
  refine ⟨by simpa using h.content, fun n b hb => ?_, by simpa using h.file⟩
  rw [find?_unbind] at hb
  split at hb
  · cases hb
  · simpa using h.binding n b hb

theorem attach (h : s.Backed) (name : Name) {b : Binding p} (hb : b.Backed s.sources.size) :
    (s.attach name b).Backed := by
  refine ⟨by simpa using h.content, fun n b' hb' => ?_, by simpa using h.file⟩
  rw [find?_attach] at hb'
  rw [(memory_attach name b).1]
  split at hb'
  · exact Option.some.inj hb' ▸ hb
  · exact h.binding n b' hb'

theorem bind (h : s.Backed) (name : Name) {b : Binding p} (hb : b.Backed s.sources.size) :
    (s.bind name b).Backed :=
  (h.recount (· + 1) b).attach name (by simpa using hb)

theorem derive (h : s.Backed) (name source : Name) {f : Binding p → Option (Binding p)}
    (hf : ∀ b b', f b = some b' → b'.Backed s.sources.size) : (s.derive name source f).Backed := by
  unfold Store.derive
  split
  · rename_i b' hb'
    obtain ⟨b, -, hbb⟩ := Option.bind_eq_some_iff.1 hb'
    exact h.bind name (hf b b' hbb)
  · exact h

theorem rename (h : s.Backed) (name target : Name) : (s.rename name target).Backed := by
  unfold Store.rename
  cases hb : s.find? name with
  | none => exact h
  | some b =>
    have hbacked := h.binding name b hb
    exact ((h.recount (· + 1) b).unbind name).attach target (by simpa using hbacked)

theorem allocate (h : s.Backed) (name : Name) (binding : CellId → Binding p)
    (hb : (binding s.cells.size).Backed s.sources.size) {x : Content p}
    (hx : x.Backed s.sources.size) : (s.allocate name binding x).Backed := by
  refine ⟨fun c y hy => ?_, fun n b hb' => ?_, by simpa using h.file⟩
  · rw [content?_allocate] at hy
    rw [(memory_allocate name binding x).1]
    split at hy
    · exact Option.some.inj hy ▸ hx
    · exact h.content c y hy
  · rw [find?_allocate] at hb'
    rw [(memory_allocate name binding x).1]
    split at hb'
    · exact Option.some.inj hb' ▸ hb
    · exact h.binding n b hb'

theorem modifyContent (h : s.Backed) (name : Name) {f : Content p → Content p}
    (hf : ∀ x, (f x).Backed s.sources.size) : (s.modifyContent name f).Backed := by
  refine ⟨fun c y hy => ?_, by simpa using h.binding, by simpa using h.file⟩
  rw [(memory_modifyContent name f).1]
  rcases container_or_not s name with ⟨kind, d, hd⟩ | hno
  · rw [content?_modifyContent hd] at hy
    split at hy
    · obtain ⟨x, -, rfl⟩ := Option.map_eq_some_iff.1 hy
      exact hf x
    · exact h.content c y hy
  · rw [modifyContent_of_not_container hno] at hy
    exact h.content c y hy

theorem addSource (h : s.Backed) (octets : Octets) : (s.addSource octets).2.Backed := by
  have hle : s.sources.size ≤ (s.addSource octets).2.sources.size := by simp [Store.addSource]
  exact ⟨fun c x hx => (h.content c x hx).mono hle, fun n b hb => (h.binding n b hb).mono hle,
    fun n i hi => Nat.lt_of_lt_of_le (h.file n i hi) hle⟩

theorem putFile (h : s.Backed) (name : Name) (octets : Octets) :
    (s.putFile name octets).Backed := by
  have hadd := h.addSource octets
  refine ⟨hadd.content, hadd.binding, fun n i hi => ?_⟩
  simp only [Store.putFile, List.lookup_cons] at hi
  -- the file is behind the new source, and every other file is where it was
  split at hi
  · obtain rfl : s.sources.size = i := Option.some.inj hi
    simp [Store.putFile, Store.addSource]
  · rw [lookup_filter_ne] at hi
    split at hi
    · cases hi
    · exact hadd.file n i hi

theorem resolve (h : s.Backed) {origin : Origin} {source : SourceId}
    (ht : s.resolve origin = some (source, t)) : t.Backed ∧ source < t.sources.size := by
  cases origin with
  | buffer name =>
    rw [Store.resolve] at ht
    split at ht
    · rename_i hb
      obtain ⟨rfl, rfl⟩ : _ = source ∧ s = t := by simpa using ht
      exact ⟨h, h.binding name _ hb⟩
    · cases ht
  | file name =>
    obtain ⟨i, hi, hst⟩ := Option.map_eq_some_iff.1 ht
    obtain ⟨rfl, rfl⟩ : i = source ∧ s = t := by simpa using hst
    exact ⟨h, h.file name i hi⟩
  | octets octets =>
    obtain ⟨rfl, rfl⟩ : s.sources.size = source ∧ (s.addSource octets).2 = t := by
      simpa [Store.resolve, Store.addSource] using ht
    exact ⟨h.addSource octets, by simp [Store.addSource]⟩

theorem makeUnique (h : s.Backed) (name : Name) : (s.makeUnique name).Backed := by
  rcases makeUnique_cases s name with heq | ⟨kind, c, x, -, hx, heq⟩
  · rwa [heq]
  · have hcontent : s.content? c = some x.content := by rw [content?, hx]; rfl
    rw [heq]
    exact h.allocate name (.container kind) trivial (h.content c _ hcontent)

theorem makeOwn (h : s.Backed) (name : Name) : (s.makeOwn name).Backed :=
  (h.makeUnique name).modifyContent name fun x => Content.backed_owned _ x _

theorem setPattern (h : s.Backed) (name : Name) (pattern : Pattern) :
    (s.setPattern name pattern).Backed :=
  h.bind name trivial

theorem settle (h : s.Backed) (name : Name) (e : Edited p) : (s.settle name e).Backed := by
  have hput := h.modifyContent name fun _ => Content.backed_ofPayload e.payload _
  unfold Store.settle
  cases he : e.pattern with
  | none => exact hput
  | some x => exact hput.setPattern x.1 x.2

theorem edit (h : s.Backed) (name : Name) (run : Reading p → Attempt (Edited p)) :
    (s.edit name run).2.Backed := by
  have hown := h.makeOwn name
  cases hr : run (s.makeOwn name).reading with
  | error failure =>
    rw [edit_of_error hr]
    exact hown
  | ok e =>
    rw [edit_of_ok hr]
    exact hown.settle name e

theorem apply (h : s.Backed) (change : Change p) : (s.apply change).2.Backed := by
  cases change with
  | create kind name x =>
    exact h.allocate name (.container kind) trivial (Content.backed_ofPayload x _)
  | createShared name x => exact h.allocate name .shared trivial (Content.backed_ofPayload x _)
  | view name origin offset count =>
    cases hr : s.resolve origin with
    | none => simpa [Store.apply, hr] using h
    | some x =>
      obtain ⟨hb, hlt⟩ := h.resolve hr
      simpa [Store.apply, hr] using hb.allocate name (.container .mapped) trivial
        (x := .mapped (.view ⟨x.1, offset, count⟩)) hlt
  | join _ name source | hold name source | observe name source =>
    refine h.derive name source fun b b' hb => ?_
    obtain ⟨c, -, rfl⟩ := Option.map_eq_some_iff.1 hb
    trivial
  | edit name run => exact h.edit name run
  | setPattern name pattern => exact h.setPattern name pattern
  | lend name octets =>
    have hlt : s.sources.size < (s.addSource octets).2.sources.size := by simp [Store.addSource]
    exact (h.addSource octets).bind name (b := .buffer s.sources.size) hlt
  | putFile name octets => exact h.putFile name octets
  | drop name => exact h.unbind name
  | rename name target => exact h.rename name target

end Backed

/-- The counts are exact, and every source that is spoken of is there. -/
structure Sound (s : Store p) : Prop where
  accounted : s.Accounted
  backed : s.Backed

theorem sound_start : ({} : Store p).Sound := ⟨accounted_start, backed_start⟩

theorem Sound.apply (h : s.Sound) (change : Change p) : (s.apply change).2.Sound :=
  ⟨h.accounted.apply change, h.backed.apply change⟩

theorem Sound.applyAll (h : s.Sound) (changes : List (Change p)) :
    (s.applyAll changes).2.Sound := by
  induction changes generalizing s with
  | nil => exact h
  | cons change rest ih =>
    have hc := h.apply change
    rcases hs : s.apply change with ⟨failure | _, t⟩
    · simpa [Store.applyAll, hs] using hc
    · simpa [Store.applyAll, hs] using ih (s := t) (by simpa [hs] using hc)

end Store
end CowArrays
