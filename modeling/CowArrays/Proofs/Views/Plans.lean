import CowArrays.Proofs.Sharing.Keeping

/-!
What plans leave of views, as plain values. Only a few steps can leave a view behind: those that
make one, clone one or rename one. Every other step leaves no view at the names that it binds, and
no step gives the caller a reference to a view, so nobody can adopt one either.
-/

namespace CowArrays

variable {p : Precision}

theorem Payload.owned_owned (x : Payload p) : x.owned.owned = x.owned := by
  cases x <;> rfl

def Payload.IsOwn (x : Payload p) : Prop := x.owned = x

theorem Payload.isOwn_owned (x : Payload p) : x.owned.IsOwn := x.owned_owned

/-- Whether a variable that is to have an item is no view: its payload is its own, if it has one. -/
def Item.IsOwn (i : Item p) : Prop := ∀ x, i.payload? = some x → x.IsOwn

def Plain.Owns (s : Plain p) (name : Name) : Prop := ∀ i, s.item? name = some i → i.IsOwn

def Plain.Hidden (s : Plain p) : Prop :=
  ∀ name i, s.item? name = some i → (∃ kind x, i = .container kind x) ∨ i.IsOwn

/-! ### Steps by what they leave -/

/-- The names that a step leaves without a view. -/
def VectorStep.unviews : VectorStep p → List Name
  | viewBuffer _ _ _ _ => []
  | viewOctets _ _ => []
  | viewFile _ _ => []
  | t => t.binds

def SharingStep.unviews : SharingStep p → List Name
  | clone _ _ _ => []
  | rename _ _ => []
  | t => t.binds

def Action.unviews : Action p → List Name
  | vector t => t.unviews
  | sharing t => t.unviews
  | a => a.binds

def MemoryStep.writes : MemoryStep p → List Name
  | writeScalars file _ => [file]
  | writeOctets file _ => [file]
  | _ => []

def Action.writes : Action p → List Name
  | memory t => t.writes
  | _ => []

/-- What a plan leaves: no view at some names, no reference to a view, and all files but some as they
were. A plan that answers with nothing changes nothing. -/
structure Plan.Leaves (s : Plain p) (names files : List Name) (plan : Plan p) : Prop where
  idle : plan.answer = .absent → plan.changes = []
  owns : ∀ n ∈ names, (s.applyAll plan.changes).2.Owns n
  hidden : (s.applyAll plan.changes).2.Hidden
  file : ∀ f, f ∉ files → (s.applyAll plan.changes).2.file? f = s.file? f

variable {s : Plain p}

/-! ### One variable set -/

namespace Plain

theorem item?_set (name n : Name) (i : Item p) :
    (s.set name i).item? n = if n = name then some i else s.item? n := rfl

theorem owns_set {name : Name} {i : Item p} (h : i.IsOwn) : (s.set name i).Owns name := by
  intro j hj
  rw [item?_set, if_pos rfl] at hj
  exact Option.some.inj hj ▸ h

theorem Hidden.set (hs : s.Hidden) {name : Name} {i : Item p}
    (h : (∃ kind x, i = .container kind x) ∨ i.IsOwn) : (s.set name i).Hidden := by
  intro n j hj
  rw [item?_set] at hj
  split at hj
  · exact Option.some.inj hj ▸ h
  · exact hs n j hj

theorem Hidden.remove (hs : s.Hidden) (name : Name) : (s.remove name).Hidden := by
  intro n i hi
  have hi : (if n = name then none else s.item? n) = some i := hi
  split at hi
  · cases hi
  · exact hs n i hi

theorem owns_of_none {name : Name} (h : s.item? name = none) : s.Owns name := by
  intro i hi
  rw [h] at hi
  cases hi

end Plain

theorem Item.isOwn_container {kind : Kind} {x : Payload p} (h : x.IsOwn) :
    (Item.container kind x).IsOwn :=
  fun _ hy => Option.some.inj hy ▸ h

theorem Item.isOwn_shared {x : Payload p} (h : x.IsOwn) : (Item.shared x).IsOwn :=
  fun _ hy => Option.some.inj hy ▸ h

theorem Item.isOwn_observer {x : Payload p} (h : x.IsOwn) : (Item.observer x).IsOwn :=
  fun _ hy => Option.some.inj hy ▸ h

theorem Item.isOwn_pattern (x : Pattern) : (Item.pattern x : Item p).IsOwn := nofun

theorem Item.isOwn_buffer (octets : Octets) : (Item.buffer octets : Item p).IsOwn := nofun

/-! ### Reading plain values -/

namespace Plain

theorem item?_of_shared {name : Name} {x : Payload p} (h : s.reading.shared name = .ok x) :
    s.item? name = some (.shared x) := by
  obtain ⟨i, hi, hiy⟩ := Option.map_eq_some_iff.1 (Reading.shared_eq_ok.1 h)
  cases i with
  | shared z => rw [hi, Value.shared.inj hiy]
  | _ => cases hiy

/-! ### Edits -/

theorem Hidden.own (hs : s.Hidden) (name : Name) : (s.own name).Hidden := by
  unfold Plain.own
  split
  · exact hs.set (.inl ⟨_, _, rfl⟩)
  · exact hs

theorem Hidden.put (hs : s.Hidden) (name : Name) (x : Payload p) : (s.put name x).Hidden := by
  unfold Plain.put
  split
  · exact hs.set (.inl ⟨_, _, rfl⟩)
  · exact hs

theorem Hidden.settle (hs : s.Hidden) (name : Name) (e : Edited p) : (s.settle name e).Hidden := by
  have hput := hs.put name e.payload.owned
  unfold Plain.settle
  cases e.pattern with
  | none => exact hput
  | some y => exact hput.set (.inr (Item.isOwn_pattern y.2))

theorem owns_put {name : Name} {kind : Kind} {x : Payload p}
    (hx : s.item? name = some (.container kind x))
    (y : Payload p) : (s.put name y.owned).Owns name := by
  simp only [put, hx]
  exact owns_set (Item.isOwn_container y.isOwn_owned)

/-- Whatever an edit leaves at its own name and at the name of a pattern, it is no view. -/
theorem owns_settle {name : Name} {kind : Kind} {x : Payload p}
    (hx : s.item? name = some (.container kind x))
    {e : Edited p} {n : Name} (hn : n = name ∨ ∃ y, e.pattern = some y ∧ y.1 = n) :
    (s.settle name e).Owns n := by
  unfold settle
  cases hp : e.pattern with
  | none =>
    rw [hp] at hn
    rcases hn with rfl | ⟨y, hy, -⟩
    · exact owns_put hx e.payload
    · cases hy
  | some y =>
    by_cases hy : n = y.1
    · subst hy
      exact owns_set (Item.isOwn_pattern y.2)
    · have hn : n = name := by
        rcases hn with hn | ⟨z, hz, rfl⟩
        · exact hn
        · rw [hp] at hz
          exact absurd (congrArg Prod.fst (Option.some.inj hz)).symm hy
      subst hn
      intro i hi
      exact owns_put hx e.payload i ((item?_set_of_ne hy _).symm.trans hi)

theorem file?_own (name : Name) : (s.own name).file? = s.file? := by
  unfold own
  split <;> rfl

theorem file?_settle (name : Name) (e : Edited p) : (s.settle name e).file? = s.file? := by
  have hput : (s.put name e.payload.owned).file? = s.file? := by
    unfold put
    split <;> rfl
  unfold settle
  cases e.pattern with
  | none => exact hput
  | some y => exact hput

end Plain

/-! ### Plans by their changes -/

namespace Plan.Leaves

open Plain

theorem tell (hs : s.Hidden) (answer : Answer p) : Leaves s [] [] (.tell answer) :=
  ⟨fun _ => rfl, nofun, hs, fun _ _ => rfl⟩

theorem one {change : Change p} {t : Plain p} (happly : s.apply change = (.ok (), t))
    {names files : List Name} {answer : Answer p} (active : answer ≠ .absent)
    (owns : ∀ n ∈ names, t.Owns n) (hidden : t.Hidden)
    (file : ∀ f, f ∉ files → t.file? f = s.file? f) : Leaves s names files ⟨answer, [change]⟩ := by
  have htail : s.applyAll [change] = (.ok (), t) := by simp only [Plain.applyAll, happly]
  exact ⟨fun h => absurd h active, by rwa [htail], by rwa [htail], by rwa [htail]⟩

theorem set {change : Change p} {name : Name} {i : Item p}
    (happly : s.apply change = (.ok (), s.set name i)) (hs : s.Hidden) (hi : i.IsOwn)
    {answer : Answer p} (active : answer ≠ .absent) : Leaves s [name] [] ⟨answer, [change]⟩ := by
  refine one happly active (fun n hn => ?_) (hs.set (.inr hi)) fun _ _ => rfl
  obtain rfl := List.mem_singleton.1 hn
  exact owns_set hi

theorem create (hs : s.Hidden) (kind : Kind) (name : Name) (x : Payload p) :
    Leaves s [name] [] (.change [.create kind name x]) :=
  .set rfl hs (Item.isOwn_container x.isOwn_owned) nofun

theorem setPattern (hs : s.Hidden) (name : Name) (x : Pattern) {answer : Answer p}
    (active : answer ≠ .absent) : Leaves s [name] [] ⟨answer, [.setPattern name x]⟩ :=
  .set rfl hs (Item.isOwn_pattern x) active

theorem drop (hs : s.Hidden) (name : Name) {answer : Answer p} (active : answer ≠ .absent) :
    Leaves s [name] [] ⟨answer, [.drop name]⟩ := by
  refine one rfl active (fun n hn => ?_) (hs.remove name) fun _ _ => rfl
  obtain rfl := List.mem_singleton.1 hn
  exact owns_of_none (if_pos rfl)

theorem view (hs : s.Hidden) (name : Name) (origin : Origin) (offset count : Nat) :
    Leaves s [] [] (.change [.view name origin offset count]) := by
  refine one (rfl : s.apply (.view name origin offset count) = (.ok (), _)) nofun nofun ?_ ?_
  · split
    · exact hs.set (.inl ⟨_, _, rfl⟩)
    · exact hs
  · intro f _
    split <;> rfl

theorem join (hs : s.Hidden) (kind : Kind) (name source : Name) :
    Leaves s [] [] (.change [.join kind name source]) := by
  refine one (rfl : s.apply (.join kind name source) = (.ok (), _)) nofun nofun ?_ ?_
  · unfold derive
    split
    · rename_i i hi
      obtain ⟨j, -, hj⟩ := Option.bind_eq_some_iff.1 hi
      obtain ⟨x, -, rfl⟩ := Option.map_eq_some_iff.1 hj
      exact hs.set (.inl ⟨_, x, rfl⟩)
    · exact hs
  · intro f _
    unfold derive
    split <;> rfl

theorem rename (hs : s.Hidden) (name target : Name) :
    Leaves s [] [] (.change [.rename name target]) := by
  refine one (rfl : s.apply (.rename name target) = (.ok (), _)) nofun nofun ?_ ?_
  · unfold Plain.rename
    split
    · rename_i i hi
      exact (hs.remove name).set (hs name i hi)
    · exact hs
  · intro f _
    unfold Plain.rename
    split <;> rfl

/-- An edit that is sure to go through leaves no view where it is or where it puts a pattern. -/
theorem edit (hs : s.Hidden) {binds : List Name} {of : Name} {run : Reading p → Attempt (Edited p)}
    (hsure : Sure s.reading binds [.edit of run]) {names : List Name}
    (hnames : ∀ n ∈ names, ∀ e, run (s.reading.own of) = .ok e →
      n = of ∨ ∃ y, e.pattern = some y ∧ y.1 = n) {answer : Answer p} (active : answer ≠ .absent) :
    Leaves s names [] ⟨answer, [.edit of run]⟩ := by
  cases hsure with
  | quiet quiet => cases quiet _ List.mem_cons_self
  | @edit _ _ kind x e found succeeds mem pattern_mem =>
    have hx := item?_own (item?_of_value? found)
    have hedit : s.apply (.edit of run) = (.ok (), (s.own of).settle of e) := by
      have hrun : run (s.own of).reading = .ok e := by rw [Store.reading_own, succeeds]
      simp only [Plain.apply, Plain.edit, hrun]
    refine one hedit active (fun n hn => owns_settle hx (hnames n hn e succeeds))
      ((hs.own of).settle of e) fun f _ => ?_
    rw [file?_settle, file?_own]

theorem planEdit (hs : s.Hidden) {binds : List Name} {of : Name}
    {run : Reading p → Attempt (Payload p)} (hsure : Sure s.reading binds (Plan.edit of run).changes)
    {answer : Answer p} (active : answer ≠ .absent) :
    Leaves s [of] [] { Plan.edit of run with answer := answer } :=
  .edit hs hsure (fun _ hn _ _ => .inl (List.mem_singleton.1 hn)) active

end Plan.Leaves

/-! ### Plans by their steps -/

open Attempt (Yields)

theorem VectorStep.plan_leaves (hs : s.Hidden) (t : VectorStep p) :
    Yields (Plan.Leaves s t.unviews []) (t.plan s.reading) := by
  cases t with
  | create k out v => exact .ok (.create hs _ out _)
  | query k of q => exact .bind fun _ _ => .bind fun _ _ => .ok (.tell hs _)
  | edit k of e =>
    intro plan hplan
    have hsure := plan_sure (.edit k of e) plan hplan
    obtain ⟨⟨v, isView⟩, -, hrest⟩ := Attempt.bind_eq_ok.1 hplan
    obtain rfl := Except.ok.inj (Attempt.seq_eq_ok.1 hrest).2
    exact .planEdit hs hsure nofun
  | equalSize k of other => exact .bind fun _ _ => .bind fun _ _ => .ok (.tell hs _)
  | same k of other => exact .bind fun _ _ => .bind fun _ _ => .ok (.tell hs _)
  | copy k of out => exact .bind fun _ _ => .ok (.create hs _ out _)
  | assign k of source => exact .bind fun _ _ => .bind fun _ _ => .ok (.create hs _ of _)
  | intoDense of out =>
    refine .bind fun ⟨v, isView⟩ _ => .ok ?_
    have hout := hs.remove of
    refine ⟨nofun, fun n hn => ?_, hout.set (.inl ⟨_, _, rfl⟩), fun _ _ => rfl⟩
    show ((s.remove of).set out (.container .vector (.vector v))).Owns n
    by_cases hno : n = out
    · subst hno
      exact Plain.owns_set (Item.isOwn_container rfl)
    · intro i hi
      rw [Plain.item?_set, if_neg hno] at hi
      have hn : n = of := (List.mem_cons.1 hn).resolve_right fun h => hno (List.mem_singleton.1 h)
      exact Plain.owns_of_none (if_pos hn) i hi
  | viewBuffer buffer start stop out =>
    refine .bind fun v _ => ?_
    split
    · exact .ok (.view hs out _ _ _)
    · exact .error
  | viewOctets slice out => exact .bind fun _ _ => .ok (.view hs out _ _ _)
  | viewFile file out => exact .bind fun _ _ => .bind fun _ _ => .ok (.view hs out _ _ _)

theorem MatrixStep.plan_leaves (hs : s.Hidden) (t : MatrixStep p) :
    Yields (Plan.Leaves s t.binds []) (t.plan s.reading) := by
  cases t with
  | filled rows cols x out => exact .ok (.create hs _ out _)
  | identity size out => exact .bind fun _ _ => .ok (.create hs _ out _)
  | create g out => exact .ok (.create hs _ out _)
  | ofPattern rows cols pattern out => exact .bind fun _ _ => .ok (.create hs _ out _)
  | rebuild of out => exact .bind fun _ _ => .bind fun _ _ => .ok (.create hs _ out _)
  | copy of out => exact .bind fun _ _ => .ok (.create hs _ out _)
  | assign of source => exact .bind fun _ _ => .bind fun _ _ => .ok (.create hs _ of _)
  | query of q => exact .bind fun _ _ => .bind fun _ _ => .ok (.tell hs _)
  | edit of e =>
    intro plan hplan
    have hsure := plan_sure (.edit of e) plan hplan
    obtain ⟨g, hg, hrest⟩ := Attempt.bind_eq_ok.1 hplan
    obtain ⟨-, hneeded⟩ := Attempt.seq_eq_ok.1 hrest
    obtain ⟨isNeeded, -, hok⟩ := Attempt.bind_eq_ok.1 hneeded
    cases isNeeded with
    | false =>
      -- nothing is changed, but there is a matrix under the name, and a matrix is no view
      obtain rfl := Except.ok.inj hok
      refine ⟨nofun, fun n hn i hi => ?_, hs, fun _ _ => rfl⟩
      obtain rfl := List.mem_singleton.1 hn
      have hitem := Plain.item?_of_value? (Reading.matrix_eq_ok.1 hg)
      obtain rfl := Option.some.inj (hi.symm.trans hitem)
      exact Item.isOwn_container rfl
    | true =>
      obtain rfl := Except.ok.inj hok
      exact .planEdit hs hsure nofun
  | equalShape of other => exact .bind fun _ _ => .bind fun _ _ => .ok (.tell hs _)
  | same of other => exact .bind fun _ _ => .bind fun _ _ => .ok (.tell hs _)
  | isTransposed of other tolerance =>
    exact .bind fun _ _ => .bind fun _ _ => .bind fun _ _ => .ok (.tell hs _)
  | multiply walk of x y =>
    intro plan hplan
    have hsure := plan_sure (.multiply walk of x y) plan hplan
    obtain ⟨g, -, hrest⟩ := Attempt.bind_eq_ok.1 hplan
    obtain ⟨v, -, hrest⟩ := Attempt.bind_eq_ok.1 hrest
    obtain ⟨w, -, hrest⟩ := Attempt.bind_eq_ok.1 hrest
    obtain rfl := Except.ok.inj (Attempt.seq_eq_ok.1 hrest).2
    exact .planEdit hs hsure nofun
  | diagonal of out => exact .bind fun _ _ => .bind fun _ _ => .ok (.create hs _ out _)
  | load of feed out =>
    intro plan hplan
    have hsure := plan_sure (.load of feed out) plan hplan
    obtain ⟨g, -, hrest⟩ := Attempt.bind_eq_ok.1 hplan
    obtain ⟨ts, -, hok⟩ := Attempt.bind_eq_ok.1 hrest
    obtain rfl := Except.ok.inj hok
    refine .edit hs hsure (fun n hn e he => ?_) nofun
    obtain ⟨g', -, hfill⟩ := Attempt.bind_eq_ok.1 he
    obtain ⟨⟨g'', pattern⟩, -, hdone⟩ := Attempt.bind_eq_ok.1 hfill
    obtain rfl := Except.ok.inj hdone
    exact (List.mem_cons.1 hn).imp_right fun h => ⟨_, rfl, (List.mem_singleton.1 h).symm⟩
  | write of pattern limit =>
    exact .bind fun _ _ => .bind fun _ _ => .bind fun _ _ => .ok (.tell hs _)

theorem PatternEdit.run_active (e : PatternEdit) (x : Pattern) :
    Yields (fun y : Answer p × Pattern => y.1 ≠ .absent) (e.run x) := by
  cases e with
  | insert i j | erase i j => exact .bind fun _ _ => .ok nofun
  | insertAll i js => exact .bind fun _ _ => .ok nofun

theorem PatternStep.plan_leaves (hs : s.Hidden) (t : PatternStep p) :
    Yields (Plan.Leaves s t.binds []) (t.plan s.reading) := by
  cases t with
  | create pattern out => exact .ok (.setPattern hs out _ nofun)
  | ofJson text out =>
    rw [plan]
    split
    · exact .ok (.setPattern hs out _ nofun)
    · exact .error
  | copy of out => exact .bind fun _ _ => .ok (.setPattern hs out _ nofun)
  | query of q => exact .bind fun _ _ => .bind fun _ _ => .ok (.tell hs _)
  | edit of e =>
    exact .bind fun x _ => .bind fun y hy => .ok (.setPattern hs of _ (e.run_active x y hy))
  | same of other => exact .bind fun _ _ => .bind fun _ _ => .ok (.tell hs _)
  | compress of matrix c out =>
    exact .bind fun _ _ => .bind fun _ _ => .bind fun _ _ => .ok (.setPattern hs out _ nofun)
  | check of matrix threshold =>
    exact .bind fun _ _ => .bind fun _ _ => .bind fun _ _ => .ok (.tell hs _)
  | compressRow matrix i columns threshold =>
    exact .bind fun _ _ => .bind fun _ _ => .ok (.tell hs _)

theorem HandleStep.plan_leaves (hs : s.Hidden) (t : HandleStep p) :
    Yields (Plan.Leaves s t.binds []) (t.plan s.reading) := by
  cases t with
  | create out v => exact .ok (.create hs _ out _)
  | copy of out => exact .bind fun _ _ => .ok (.create hs _ out _)
  | write of w =>
    intro plan hplan
    have hsure := plan_sure (.write of w) plan hplan
    obtain ⟨x, -, hrest⟩ := Attempt.bind_eq_ok.1 hplan
    obtain ⟨y, -, hok⟩ := Attempt.bind_eq_ok.1 hrest
    obtain rfl := Except.ok.inj hok
    exact .planEdit hs hsure nofun
  | touch of =>
    intro plan hplan
    have hsure := plan_sure (.touch of) plan hplan
    obtain ⟨v, -, hok⟩ := Attempt.bind_eq_ok.1 hplan
    obtain rfl := Except.ok.inj hok
    exact .planEdit hs hsure nofun
  | intoInner of => exact .bind fun _ _ => .ok (.drop hs of nofun)
  | inspect of => exact .bind fun _ _ => .ok (.tell hs _)

/-- What a reference of the caller is on is its own. -/
theorem Plain.Hidden.isOwn_of_shared (hs : s.Hidden) {name : Name} {x : Payload p}
    (h : s.reading.shared name = .ok x) : x.IsOwn := by
  rcases hs name _ (item?_of_shared h) with ⟨_, y, hy⟩ | hown
  · cases hy
  · exact hown x rfl

theorem SharingStep.plan_leaves (hs : s.Hidden) (t : SharingStep p) :
    Yields (Plan.Leaves s t.unviews []) (t.plan s.reading) := by
  cases t with
  | createShared out x => exact .ok (.set rfl hs (Item.isOwn_shared x.isOwn_owned) nofun)
  | clone kind of out => exact .bind fun _ _ => .ok (.join hs kind out of)
  | adopt kind owner out =>
    refine .bind fun x hx => .bind fun _ _ => .ok ?_
    refine .set (i := .container kind x) ?_ hs (Item.isOwn_container (hs.isOwn_of_shared hx)) nofun
    simp [Plain.apply, Plain.derive, Plain.item?_of_shared hx, Item.toContainer?, Item.owned?]
  | cloneShared of out =>
    refine .bind fun x hx => .ok ?_
    refine .set (i := .shared x) ?_ hs (Item.isOwn_shared (hs.isOwn_of_shared hx)) nofun
    simp [Plain.apply, Plain.derive, Plain.item?_of_shared hx, Item.toShared?, Item.payload?]
  | observe of out =>
    refine .bind fun x hx => .ok ?_
    refine .set (i := .observer x) ?_ hs (Item.isOwn_observer (hs.isOwn_of_shared hx)) nofun
    simp [Plain.apply, Plain.derive, Plain.item?_of_shared hx, Item.toObserver?, Item.owned?]
  | drop of =>
    rw [plan]
    split
    · exact .ok (.drop hs of nofun)
    · rename_i hnone
      refine .ok ⟨fun _ => rfl, fun n hn => ?_, hs, fun _ _ => rfl⟩
      obtain rfl := List.mem_singleton.1 hn
      exact Plain.owns_of_none (Option.map_eq_none_iff.1 hnone)
  | rename of target =>
    rw [plan]
    split
    · exact .ok (.rename hs of target)
    · exact .ok (.tell hs _)

theorem MemoryStep.plan_leaves (hs : s.Hidden) (t : MemoryStep p) :
    Yields (Plan.Leaves s t.binds t.writes) (t.plan s.reading) := by
  have hput (file : Name) (octets : Octets) :
      Plan.Leaves s [] [file] (.change [.putFile file octets]) :=
    .one rfl nofun nofun hs fun f hf => if_neg fun heq => hf (List.mem_singleton.2 heq)
  cases t with
  | lend out v => exact .ok (.set rfl hs (Item.isOwn_buffer _) nofun)
  | writeScalars file v => exact .ok (hput file _)
  | writeOctets file octets => exact .ok (hput file octets)
  | fileContents file => exact .bind fun _ _ => .ok (.tell hs _)
  | writeNowhere v => exact .error

theorem Action.plan_leaves (hs : s.Hidden) (a : Action p) :
    Yields (Plan.Leaves s a.unviews a.writes) (a.plan s.reading) := by
  cases a with
  | vector t => exact t.plan_leaves hs
  | matrix t => exact t.plan_leaves hs
  | pattern t => exact t.plan_leaves hs
  | handle t => exact t.plan_leaves hs
  | sharing t => exact t.plan_leaves hs
  | memory t => exact t.plan_leaves hs

end CowArrays
