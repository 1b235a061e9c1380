import CowArrays.Proofs.Safety.Calls
import CowArrays.Proofs.Sharing.Atomicity
import CowArrays.Proofs.Storage.Listings

/-!
Storages are shielded. Whatever is asked of a store, no entry is accessed where there is none, no two
storages of different sizes are combined, and no view is changed in its place, since every such use
breaches, and no step fails with a breach. Indices go out of range only where the caller speaks of a
single entry or row, and exactly when it is not there.
-/

namespace CowArrays

variable {p : Precision} {R : RangeFault → Prop}

open Attempt.FailsOnly (ok of_ok error bind map ite)

/-! ### Variables -/

/-- A variable that is not there, or stands for something else, is no misuse. -/
theorem Reading.shielded_get {r : Reading p} {name : Name} {α : Type} {form : Value p → Option α} :
    Shielded R (r.get name form) := by
  unfold get
  split
  · exact ok
  · exact error trivial

theorem Reading.shielded_file {r : Reading p} {name : Name} : Shielded R (r.file name) := by
  unfold file
  split
  · exact ok
  · exact error trivial

theorem shielded_castCount {slice : Slice} : Shielded R (castCount p slice) :=
  ite ok (error trivial)

theorem VectorKind.shielded_read {k : VectorKind} {r : Reading p} {name : Name} :
    Shielded R (k.read r name) := by
  cases k with
  | dense => exact map Reading.shielded_get
  | mapped => exact Reading.shielded_get

/-- A vector to be changed that is there is misused only if it still is a view. -/
theorem VectorKind.readOwn_eq_breach {k : VectorKind} {r : Reading p} {name : Name} :
    k.readOwn r name = .error .breach ↔ ∃ v, k.read r name = .ok (v, true) := by
  unfold readOwn
  cases hread : k.read r name with
  | error failure =>
    have htame := shielded_read (R := fun _ => True) failure hread
    refine ⟨fun h => ?_, nofun⟩
    obtain rfl : failure = .breach := Except.error.inj h
    exact htame.elim
  | ok x =>
    obtain ⟨v, isView⟩ := x
    cases isView with
    | true => simp
    | false => simp

/-! ### Steps -/

/-- Steps that speak of a single entry or row that is not there, and the fault that says so. -/
inductive Step.Overreaches (r : Reading p) : Step p → RangeFault → Prop
  | vector {t : VectorStep p} {k : VectorKind} {of : Name} {i : Nat} {v : Line p} {isView : Bool}
      (enters : t.Enters i k of) (found : k.read r of = .ok (v, isView)) (outside : v.size ≤ i) :
      Overreaches r (.act (.vector t)) (.vector i v.size)
  | matrix {t : MatrixStep p} {of : Name} {i j : Nat} {g : Grid p} (enters : t.Enters i j of)
      (found : r.matrix of = .ok g) (outside : ¬(i < g.rows ∧ j < g.cols)) :
      Overreaches r (.act (.matrix t)) (.matrix i j g.rows g.cols)
  | pattern {t : PatternStep p} {of : Name} {i : Nat} {x : Pattern} (enters : t.Enters i of)
      (found : r.pattern of = .ok x) (outside : x.size ≤ i) :
      Overreaches r (.act (.pattern t)) (.pattern i x.size)

/-- Steps that speak of a single entry or row that is there. -/
inductive Step.Reaches (r : Reading p) : Step p → Prop
  | vector {t : VectorStep p} {k : VectorKind} {of : Name} {i : Nat} {v : Line p} {isView : Bool}
      (enters : t.Enters i k of) (found : k.read r of = .ok (v, isView)) (inside : i < v.size) :
      Reaches r (.act (.vector t))
  | matrix {t : MatrixStep p} {of : Name} {i j : Nat} {g : Grid p} (enters : t.Enters i j of)
      (found : r.matrix of = .ok g) (inside : i < g.rows ∧ j < g.cols) : Reaches r (.act (.matrix t))
  | pattern {t : PatternStep p} {of : Name} {i : Nat} {x : Pattern} (enters : t.Enters i of)
      (found : r.pattern of = .ok x) (inside : i < x.size) : Reaches r (.act (.pattern t))

/-- Whether a step compresses a single row only if the matrix has this row, as is up to the caller. -/
def Step.Dutiful (r : Reading p) : Step p → Prop
  | .act (.pattern (.compressRow matrix i _ _)) => ∀ g, r.matrix matrix = .ok g → i < g.rows
  | _ => True

theorem Step.Overreaches.doomed {r : Reading p} {t : Step p} {fault : RangeFault}
    (h : t.Overreaches r fault) : t.Doomed r (.outOfRange fault) := by
  cases h with
  | vector enters found outside => exact .vectorEntry enters found outside
  | matrix enters found outside => exact .matrixEntry enters found outside
  | pattern enters found outside => exact .patternRow enters found outside

section Plans

variable {r : Reading p}

theorem Step.Reaches.exists_plan {s : Store p} {t : Step p} (h : t.Reaches s.reading) :
    ∃ plan, s.plan t = .ok plan := by
  cases h with
  | @vector t k of i v isView enters found inside =>
    show ∃ plan, t.plan s.reading = .ok plan
    have hcheck := Line.checkRange_eq_ok.2 inside
    cases enters with
    | get =>
      simp [VectorStep.plan, found, VectorQuery.answer, Line.read, hcheck,
        Line.entry_of_lt inside, Except.map]
    | set x | add x => simp [VectorStep.plan, found, VectorEdit.check, hcheck]
  | @matrix t of i j g enters found inside =>
    show ∃ plan, t.plan s.reading = .ok plan
    have hcheck := Grid.checkRange_eq_ok.2 inside
    cases enters with
    | get =>
      obtain ⟨x, hx⟩ := Grid.read_ok inside
      simp [MatrixStep.plan, found, MatrixQuery.answer, hx, Except.map]
    | set x | add x => simp [MatrixStep.plan, found, MatrixEdit.check, MatrixEdit.isNeeded, hcheck]
  | @pattern t of i x enters found inside =>
    show ∃ plan, t.plan s.reading = .ok plan
    have hrow := Pattern.row_of_lt inside
    cases enters with
    | row => simp [PatternStep.plan, found, PatternQuery.answer, hrow, Except.map]
    | insert j | erase j | insertAll js =>
      simp [PatternStep.plan, found, PatternEdit.run, Pattern.insert, Pattern.erase,
        Pattern.insertAll, hrow]

theorem VectorStep.shielded_plan (t : VectorStep p) :
    Shielded ((Step.act (.vector t)).Overreaches r) (t.plan r) := by
  cases t with
  | create k out v => exact ok
  | query k of q =>
    refine bind VectorKind.shielded_read fun x found => bind ?_ fun _ _ => ok
    cases q with
    | get i => exact map (Line.shielded_read fun outside => .vector (.get k of) found outside)
    | _ => exact ok
  | edit k of e =>
    refine bind VectorKind.shielded_read fun x found => bind ?_ fun _ _ => ok
    cases e with
    | set i x => exact Line.shielded_checkRange fun outside => .vector (.set k of x) found outside
    | add i x => exact Line.shielded_checkRange fun outside => .vector (.add k of x) found outside
    | scale a | write f => exact ok
    | axpy a other => exact bind VectorKind.shielded_read fun _ _ => shielded_checkShape
  | equalSize k of other | same k of other =>
    exact bind VectorKind.shielded_read fun _ _ => bind VectorKind.shielded_read fun _ _ => ok
  | copy k of out => exact bind VectorKind.shielded_read fun _ _ => ok
  | assign k of source =>
    exact bind VectorKind.shielded_read fun _ _ => bind Reading.shielded_get fun _ _ => ok
  | intoDense of out => exact bind Reading.shielded_get fun _ _ => ok
  | viewBuffer buffer start stop out =>
    exact bind Reading.shielded_get fun _ _ => ite ok (error trivial)
  | viewOctets slice out => exact bind shielded_castCount fun _ _ => ok
  | viewFile file out =>
    exact bind Reading.shielded_file fun _ _ => bind shielded_castCount fun _ _ => ok

theorem MatrixStep.shielded_plan (t : MatrixStep p) :
    Shielded ((Step.act (.matrix t)).Overreaches r) (t.plan r) := by
  cases t with
  | filled rows cols x out | create g out => exact ok
  | identity size out =>
    obtain ⟨g, hg, -⟩ := Grid.exists_identity (p := p) size
    exact bind (of_ok ⟨g, hg⟩) fun _ _ => ok
  | ofPattern rows cols pattern out => exact bind Reading.shielded_get fun _ _ => ok
  | rebuild of out =>
    exact bind Reading.shielded_get fun g _ => bind (of_ok ⟨g, g.rebuild_eq⟩) fun _ _ => ok
  | copy of out => exact bind Reading.shielded_get fun _ _ => ok
  | assign of source | equalShape of other | same of other =>
    exact bind Reading.shielded_get fun _ _ => bind Reading.shielded_get fun _ _ => ok
  | query of q =>
    refine bind Reading.shielded_get fun g found => bind ?_ fun _ _ => ok
    cases q with
    | get i j => exact map (Grid.shielded_read fun outside => .matrix (.get of) found outside)
    | entries => exact map Grid.shielded_toTriples
    | trace => exact map Grid.shielded_trace
    | _ => exact ok
  | edit of e =>
    refine bind Reading.shielded_get fun g found => bind ?check fun _ _ => bind ?needed ?_
    case check =>
      cases e with
      | set i j x =>
        exact Grid.shielded_checkRange fun outside => .matrix (.set of x) found outside
      | add i j x =>
        exact Grid.shielded_checkRange fun outside => .matrix (.add of x) found outside
      | scale | write | clear => exact ok
      | axpy a other | addExceeding other eps =>
        exact bind Reading.shielded_get fun _ _ => shielded_checkShape
      | clearRow i | clearCol j => exact shielded_checkIndex
      | unitRow i | unitCol j => exact bind shielded_checkIndex fun _ _ => shielded_checkIndex
    case needed =>
      cases e with
      | addExceeding source eps =>
        exact bind Reading.shielded_get fun _ _ => Grid.shielded_anyExceeding
      | _ => exact ok
    intro isNeeded _
    cases isNeeded <;> exact ok
  | isTransposed of other tolerance =>
    exact bind Reading.shielded_get fun _ _ => bind Reading.shielded_get fun _ _ =>
      bind Grid.shielded_isTransposed fun _ _ => ok
  | multiply walk of x y =>
    exact bind Reading.shielded_get fun _ _ => bind Reading.shielded_get fun _ _ =>
      bind Reading.shielded_get fun _ _ => bind Grid.shielded_checkFactors fun _ _ => ok
  | diagonal of out =>
    exact bind Reading.shielded_get fun _ _ => bind Grid.shielded_diagonal fun _ _ => ok
  | load of feed out =>
    exact bind Reading.shielded_get fun _ _ => bind Triplet.shielded_readInside fun _ _ => ok
  | write of pattern limit =>
    exact bind Reading.shielded_get fun _ _ => bind Reading.shielded_get fun _ _ =>
      bind shielded_writeWithin fun _ _ => ok

/-- Compressing a single row is the one step that does not check the row it is given. -/
theorem PatternStep.shielded_plan (t : PatternStep p) :
    Shielded (fun fault => (Step.act (.pattern t)).Dutiful r →
      (Step.act (.pattern t)).Overreaches r fault) (t.plan r) := by
  cases t with
  | create pattern out => exact ok
  | ofJson text out =>
    simp only [plan]
    split
    · exact ok
    · exact error trivial
  | copy of out => exact bind Reading.shielded_get fun _ _ => ok
  | query of q =>
    refine bind Reading.shielded_get fun x found => bind ?_ fun _ _ => ok
    cases q with
    | row i => exact map (Pattern.shielded_row fun outside _ => .pattern (.row of) found outside)
    | _ => exact ok
  | edit of e =>
    refine bind Reading.shielded_get fun x found => bind ?_ fun _ _ => ok
    have hrow {i : Nat} (enters : (PatternStep.edit of e).Enters (p := p) i of) :
        Shielded (fun fault => (Step.act (.pattern (.edit of e))).Dutiful r →
          (Step.act (.pattern (.edit of e))).Overreaches r fault) (x.row i) :=
      Pattern.shielded_row fun outside _ => .pattern enters found outside
    cases e with
    | insert i j => exact bind (bind (hrow (.insert of j)) fun _ _ => ok) fun _ _ => ok
    | erase i j => exact bind (bind (hrow (.erase of j)) fun _ _ => ok) fun _ _ => ok
    | insertAll i js => exact bind (bind (hrow (.insertAll of js)) fun _ _ => ok) fun _ _ => ok
  | same of other =>
    exact bind Reading.shielded_get fun _ _ => bind Reading.shielded_get fun _ _ => ok
  | compress of matrix c out =>
    refine bind Reading.shielded_get fun _ _ => bind Reading.shielded_get fun _ _ => ?_
    exact bind (c.safe_run.mono fun _ => False.elim) fun _ _ => ok
  | check of matrix threshold =>
    exact bind Reading.shielded_get fun _ _ => bind Reading.shielded_get fun _ _ =>
      bind shielded_checkCompression fun _ _ => ok
  | compressRow matrix i columns threshold =>
    refine bind Reading.shielded_get fun g found => bind ?_ fun _ _ => ok
    exact shielded_compressRow fun j _ hout hduty => absurd (hduty g found) hout

theorem Action.shielded_plan (a : Action p) :
    Shielded (fun fault => (Step.act a).Dutiful r → (Step.act a).Overreaches r fault)
      (a.plan r) := by
  cases a with
  | vector t => exact t.shielded_plan.mono fun _ h _ => h
  | matrix t => exact t.shielded_plan.mono fun _ h _ => h
  | pattern t => exact t.shielded_plan
  | handle t | sharing t | memory t =>
    cases t
    all_goals
      simp only [plan, HandleStep.plan, SharingStep.plan, MemoryStep.plan, Rewrite.run, checkAdmits]
      repeat' first
        | exact ok
        | exact error trivial
        | exact Reading.shielded_get
        | exact Reading.shielded_file
        | refine bind ?_ fun _ _ => ?_
        | split

end Plans

namespace Store

variable {s : Store p}

theorem shielded_cellOf {kind : Kind} {name : Name} : Shielded R (s.cellOf kind name) := by
  refine .bind Reading.shielded_get fun x _ => ?_
  split
  · exact .ok
  · exact .error trivial

theorem shielded_plan (t : Step p) :
    Shielded (fun fault => t.Dutiful s.reading → t.Overreaches s.reading fault) (s.plan t) := by
  cases t with
  | act a => exact a.shielded_plan
  | ask q =>
    refine .map ?_
    cases q with
    | isUnique kind of | ownerCount kind of => exact .bind shielded_cellOf fun _ _ => .ok
    | shares kind of other =>
      exact .bind shielded_cellOf fun _ _ => .bind shielded_cellOf fun _ _ => .ok
  | upgrade of out =>
    rw [plan, upgradePlan]
    split
    · exact .ok
    · exact .error trivial

/-! ### The laws -/

/-- What a breach stands for: that a raw operation is misused. -/
structure BreachLaws (p : Precision) : Prop where
  entry : ∀ (v : Line p) i, v.entry i = .error .breach ↔ v.size ≤ i
  put : ∀ (v : Line p) i x, v.put i x = .error .breach ↔ v.size ≤ i
  addScaled : ∀ (v : Line p) a w, v.addScaled a w = .error .breach ↔ v.size ≠ w.size
  gridEntry : ∀ (g : Grid p) i j, g.entry i j = .error .breach ↔ ¬(i < g.rows ∧ j < g.cols)
  gridPut : ∀ (g : Grid p) i j x, g.put i j x = .error .breach ↔ ¬(i < g.rows ∧ j < g.cols)
  gridAddScaled : ∀ (g : Grid p) a h, g.addScaled a h = .error .breach ↔ g.shape ≠ h.shape
  apply : ∀ (g : Grid p) walk x y,
    g.apply walk x y = .error .breach ↔ ¬(x.size = g.cols ∧ y.size = g.rows)
  readOwn : ∀ (r : Reading p) name, VectorKind.mapped.readOwn r name = .error .breach ↔
    ∃ v, r.mapped name = .ok (v, true)

theorem breachLaws : BreachLaws p where
  entry _ _ := Line.entry_eq_breach
  put _ _ _ := Line.put_eq_breach
  addScaled _ _ _ := Line.addScaled_eq_breach
  gridEntry _ _ _ := Grid.entry_eq_breach
  gridPut _ _ _ _ := Grid.put_eq_breach
  gridAddScaled _ _ _ := Grid.addScaled_eq_breach
  apply _ _ _ _ := Grid.apply_eq_breach
  readOwn _ _ := VectorKind.readOwn_eq_breach

/-- What holds of the storages behind the steps on a store, and behind the calls that no step makes in
their full generality. -/
structure ShieldLaws (s : Store p) : Prop where
  marks : BreachLaws p
  /-- No step reads or writes an entry that is not there, adds storages of different sizes or shapes,
  takes a product with lines that do not fit, or changes a mapped vector that still is a view. -/
  breach : ∀ t, (s.step t).1 ≠ .error .breach
  /-- A step goes out of range exactly when it speaks of a single entry or row that is not there. -/
  range : ∀ t fault, t.Dutiful s.reading →
    ((s.step t).1 = .error (.outOfRange fault) ↔ t.Overreaches s.reading fault)
  /-- A step that speaks of one that is there succeeds. -/
  reached : ∀ t, t.Reaches s.reading → ∃ answer, (s.step t).1 = .ok answer
  /-- Compression is safe in whatever order the rows are finished. -/
  scheduled : ∀ (P : Pattern) (g : Grid p) (t : Scalar p) (order : List Nat),
    order.Perm (List.range P.size) → Safe (compressInOrder order P g t)
  /-- It is safe with all settings. -/
  configured : ∀ (P : Pattern) (g : Grid p) (c : Settings) (schedule : Schedule),
    (schedule P.size).Perm (List.range P.size) → Safe (c.compress schedule P g)
  /-- So is each row on its own, also one that is not reported since another one fails. -/
  row : ∀ (P : Pattern) (g : Grid p) (t : Scalar p) (i : Nat),
    checkCompression P g t = .ok () → i < P.size → Safe (rowTask P g t i)
  /-- A grid whose entries are asked for one by one comes about, whatever else the asking does. -/
  built : ∀ (m : Type → Type) [Monad m] [LawfulMonad m] (rows cols : Nat)
    (f : Nat → Nat → m (Scalar p)), ∃ made : m { g : Grid p // g.shape = (rows, cols) },
      (Grid.buildM rows cols f).run = (fun g => .ok g.1) <$> made
  /-- Any text may be read, also one that breaks off. -/
  read : ∀ feed, Safe (Triplet.readFeed feed)
  /-- Any entries may be asked to be written, whatever the sink does with them. -/
  written : ∀ (σ : Type) (sink : Sink σ) (g : Grid p) (x : Pattern), Safe (Triplet.write sink g x)
  /-- An optional entry is there exactly where it can be accessed. -/
  optional : (∀ (v : Line p) i x, v.entry i = .ok x ↔ v[i]? = some x) ∧
    ∀ (g : Grid p) i j x, g.entry i j = .ok x ↔ g.read? i j = some x
  /-- Lines and rows that are taken as wholes are what one access after the other gives. -/
  whole : (∀ v : Line p, (List.range v.size).mapM v.entry = .ok v.toList) ∧
    ∀ (g : Grid p) i, i < g.rows → (List.range g.cols).mapM (g.entry i) = .ok (g.lane i)

/-- A step fails as its plan does. -/
theorem Sound.step_eq_error_iff (hs : s.Sound) {t : Step p} {failure : Failure} :
    (s.step t).1 = .error failure ↔ s.plan t = .error failure := by
  cases hplan : s.plan t with
  | error failure' => simp [step_of_error hplan]
  | ok plan => simp [hs.step_eq hplan]

/-- Storages are shielded. -/
theorem Reachable.shieldLaws (h : s.Reachable) : s.ShieldLaws := by
  have hs := h.sound
  constructor
  case marks => exact breachLaws
  case breach =>
    intro t hbreach
    exact shielded_plan t _ (hs.step_eq_error_iff.1 hbreach)
  case range =>
    intro t fault hduty
    rw [hs.step_eq_error_iff]
    exact ⟨fun hfail => shielded_plan t _ hfail hduty, fun hover => hover.doomed.plan_eq⟩
  case reached =>
    intro t hreaches
    obtain ⟨plan, hplan⟩ := hreaches.exists_plan
    exact ⟨plan.answer, by rw [hs.step_eq hplan]⟩
  case scheduled => exact fun P g t order horder => (agrees_compressInOrder horder).safe
  case configured => exact fun P g c schedule hall => (agrees_settings c hall).safe
  case row => exact fun P g t i hcheck hi => safe_rowTask (checkCompression_eq_ok.1 hcheck).2 hi
  case built => exact fun m _ _ rows cols f => Grid.buildM_run rows cols f
  case read => exact fun feed => Triplet.shielded_readFeed feed
  case written => exact fun σ sink g x => Triplet.shielded_write sink
  case optional => exact ⟨fun v i x => Line.entry_eq_ok, fun g i j x => Grid.entry_eq_ok⟩
  case whole => exact ⟨Line.mapM_entry, fun g i hi => Grid.mapM_entry hi⟩

/-- A matrix without rows that shares its storage, and a mapped vector that still is a view. -/
def rowless : Store .double :=
  after {} [.act (.matrix (.filled 0 3 .zero "m")), .act (.sharing (.clone .matrix "m" "n")),
    .act (.vector (.viewOctets ⟨.replicate 16 0, 8, by decide⟩ "v"))]

theorem shieldLaws_rowless : rowless.Reachable ∧ rowless.ShieldLaws ∧
    (rowless.step (.act (.matrix (.query "m" (.get 0 0))))).1 =
        .error (.outOfRange (.matrix 0 0 0 3)) ∧
      (rowless.step (.act (.vector (.edit .mapped "v" (.set 1 .zero))))).1 =
        .error (.outOfRange (.vector 1 1)) := by
  have hreachable : rowless.Reachable := Reachable.start.after _
  have laws := Reachable.shieldLaws hreachable
  have hm : rowless.reading.matrix "m" = .ok (.filled 0 3 .zero) := rfl
  have hv : VectorKind.mapped.read rowless.reading "v" = .ok (#[.zero], true) := rfl
  refine ⟨hreachable, laws, ?_, ?_⟩
  · exact (laws.range _ _ (by trivial)).2 (.matrix (.get "m") hm (by decide))
  · exact (laws.range _ _ (by trivial)).2 (.vector (.set .mapped "v" .zero) hv (by decide))

/-- The change that is in range makes an own line of the view. -/
example : ((rowless.step (.act (.vector (.edit .mapped "v" (.set 0 .zero))))).2.step
    (.act (.vector (.query .mapped "v" .isView)))).1 = .ok (.bool false) := by
  rfl

end Store
end CowArrays
