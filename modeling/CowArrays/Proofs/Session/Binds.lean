import CowArrays.Proofs.Session.Plans
import CowArrays.Proofs.Storage.Products

/-!
The names that a step binds, and that its plan keeps to them. A plan is either without edits, or it
is one edit that is sure to succeed.
-/

namespace CowArrays

variable {p : Precision}

/-! ### Names -/

def VectorStep.binds : VectorStep p → List Name
  | create _ out _ => [out]
  | query _ _ _ => []
  | edit _ of _ => [of]
  | equalSize _ _ _ => []
  | same _ _ _ => []
  | copy _ _ out => [out]
  | assign _ of _ => [of]
  | intoDense of out => [of, out]
  | viewBuffer _ _ _ out => [out]
  | viewOctets _ out => [out]
  | viewFile _ out => [out]

def MatrixStep.binds : MatrixStep p → List Name
  | filled _ _ _ out => [out]
  | identity _ out => [out]
  | create _ out => [out]
  | ofPattern _ _ _ out => [out]
  | rebuild _ out => [out]
  | copy _ out => [out]
  | assign of _ => [of]
  | query _ _ => []
  | edit of _ => [of]
  | equalShape _ _ => []
  | same _ _ => []
  | isTransposed _ _ _ => []
  | multiply _ _ _ y => [y]
  | diagonal _ out => [out]
  | load of _ out => [of, out]
  | write _ _ _ => []

def PatternStep.binds : PatternStep p → List Name
  | create _ out => [out]
  | ofJson _ out => [out]
  | copy _ out => [out]
  | query _ _ => []
  | edit of _ => [of]
  | same _ _ => []
  | compress _ _ _ out => [out]
  | check _ _ _ => []
  | compressRow _ _ _ _ => []

def HandleStep.binds : HandleStep p → List Name
  | create out _ => [out]
  | copy _ out => [out]
  | write of _ => [of]
  | touch of => [of]
  | intoInner of => [of]
  | inspect _ => []

def SharingStep.binds : SharingStep p → List Name
  | createShared out _ => [out]
  | clone _ _ out => [out]
  | adopt _ _ out => [out]
  | cloneShared _ out => [out]
  | observe _ out => [out]
  | drop of => [of]
  | rename of target => [of, target]

def MemoryStep.binds : MemoryStep p → List Name
  | lend out _ => [out]
  | writeScalars _ _ => []
  | writeOctets _ _ => []
  | fileContents _ => []
  | writeNowhere _ => []

def Action.binds : Action p → List Name
  | vector s => s.binds
  | matrix s => s.binds
  | pattern s => s.binds
  | handle s => s.binds
  | sharing s => s.binds
  | memory s => s.binds

/-- The names that a step may bind anew or end. Steps that only read have none. -/
def Step.binds : Step p → List Name
  | act a => a.binds
  | ask _ => []
  | upgrade _ out => [out]

/-! ### Changes that keep to names -/

/-- Whether a change is no edit and binds only some names. -/
def Change.Quiet (names : List Name) : Change p → Prop
  | create _ name _ => name ∈ names
  | createShared name _ => name ∈ names
  | view name _ _ _ => name ∈ names
  | join _ name _ => name ∈ names
  | hold name _ => name ∈ names
  | observe name _ => name ∈ names
  | edit _ _ => False
  | setPattern name _ => name ∈ names
  | lend name _ => name ∈ names
  | putFile _ _ => True
  | drop name => name ∈ names
  | rename name target => name ∈ names ∧ target ∈ names

/-- Changes that are sure to go through, and to bind only some names. -/
inductive Sure (r : Reading p) (names : List Name) : List (Change p) → Prop
  | quiet {changes : List (Change p)} (quiet : ∀ c ∈ changes, c.Quiet names) : Sure r names changes
  | edit {name : Name} {run : Reading p → Attempt (Edited p)} {kind : Kind} {x : Payload p}
      {e : Edited p} (found : r.value? name = some (.container kind x))
      (succeeds : run (r.own name) = .ok e) (mem : name ∈ names)
      (pattern_mem : ∀ y, e.pattern = some y → y.1 ∈ names) : Sure r names [.edit name run]

theorem Sure.none {r : Reading p} {names : List Name} : Sure r names [] :=
  .quiet nofun

theorem Sure.one {r : Reading p} {names : List Name} {change : Change p}
    (h : change.Quiet names) : Sure r names [change] :=
  .quiet fun _ hc => List.mem_singleton.1 hc ▸ h

open Attempt (Yields)

variable {r : Reading p}

theorem VectorStep.plan_sure (t : VectorStep p) :
    Yields (fun plan => Sure r t.binds plan.changes) (t.plan r) := by
  cases t with
  | create k out v => exact .ok (.one List.mem_cons_self)
  | query k of q => exact .bind fun _ _ => .bind fun _ _ => .ok .none
  | edit k of e =>
    refine .bind fun ⟨v, isView⟩ hv => .bind fun _ hcheck => .ok ?_
    obtain ⟨x, hx, -⟩ := VectorKind.read_eq_ok hv
    -- the check was passed on what there was to read before, and holds of what there is then
    obtain ⟨u, hu⟩ := VectorEdit.run_ok of hcheck
    refine .edit (e := ⟨k.payload u, none⟩) hx ?_ List.mem_cons_self nofun
    simp [VectorKind.readOwn_own hv, hu, Except.map]
  | equalSize k of other => exact .bind fun _ _ => .bind fun _ _ => .ok .none
  | same k of other => exact .bind fun _ _ => .bind fun _ _ => .ok .none
  | copy k of out => exact .bind fun _ _ => .ok (.one List.mem_cons_self)
  | assign k of source => exact .bind fun _ _ => .bind fun _ _ => .ok (.one List.mem_cons_self)
  | intoDense of out =>
    refine .bind fun ⟨v, isView⟩ _ => .ok (.quiet fun c hc => ?_)
    rcases List.mem_cons.1 hc with rfl | hc
    · exact List.mem_cons_self
    · obtain rfl := List.mem_singleton.1 hc
      exact List.mem_cons_of_mem of List.mem_cons_self
  | viewBuffer buffer start stop out =>
    refine .bind fun v _ => ?_
    split
    · exact .ok (.one List.mem_cons_self)
    · exact .error
  | viewOctets slice out => exact .bind fun _ _ => .ok (.one List.mem_cons_self)
  | viewFile file out => exact .bind fun _ _ => .bind fun _ _ => .ok (.one List.mem_cons_self)

theorem MatrixStep.plan_sure (t : MatrixStep p) :
    Yields (fun plan => Sure r t.binds plan.changes) (t.plan r) := by
  cases t with
  | filled rows cols x out => exact .ok (.one List.mem_cons_self)
  | identity size out => exact .bind fun _ _ => .ok (.one List.mem_cons_self)
  | create g out => exact .ok (.one List.mem_cons_self)
  | ofPattern rows cols pattern out => exact .bind fun _ _ => .ok (.one List.mem_cons_self)
  | rebuild of out => exact .bind fun _ _ => .bind fun _ _ => .ok (.one List.mem_cons_self)
  | copy of out => exact .bind fun _ _ => .ok (.one List.mem_cons_self)
  | assign of source => exact .bind fun _ _ => .bind fun _ _ => .ok (.one List.mem_cons_self)
  | query of q => exact .bind fun _ _ => .bind fun _ _ => .ok .none
  | edit of e =>
    refine .bind fun g hg => .bind fun _ hcheck => .bind fun isNeeded _ => ?_
    cases isNeeded with
    | false => exact .ok .none
    | true =>
      obtain ⟨g', hg', -⟩ := MatrixEdit.run_ok of hcheck
      refine .ok (.edit (e := ⟨.matrix g', none⟩) (Reading.matrix_eq_ok.1 hg) ?_
        List.mem_cons_self nofun)
      simp [Reading.matrix_own hg, hg', Except.map]
  | equalShape of other => exact .bind fun _ _ => .bind fun _ _ => .ok .none
  | same of other => exact .bind fun _ _ => .bind fun _ _ => .ok .none
  | isTransposed of other tolerance =>
    exact .bind fun _ _ => .bind fun _ _ => .bind fun _ _ => .ok .none
  | multiply walk of x y =>
    refine .bind fun g hg => .bind fun v hv => .bind fun w hw => .bind fun _ hcheck => .ok ?_
    have ⟨hx, hy⟩ := Grid.checkFactors_eq_ok.1 hcheck
    obtain ⟨u, hu, -⟩ := Grid.exists_apply walk hx hy
    refine .edit (e := ⟨.vector u, none⟩) (Reading.vector_eq_ok.1 hw) ?_ List.mem_cons_self nofun
    simp [Reading.matrix_own hg, Reading.vector_own hv, Reading.vector_own hw, hu, Except.map]
  | diagonal of out => exact .bind fun _ _ => .bind fun _ _ => .ok (.one List.mem_cons_self)
  | load of feed out =>
    refine .bind fun g hg => .bind fun ts hts => .ok ?_
    obtain ⟨g', pattern, hfill, -⟩ := Triplet.fill_of_lt (Triplet.readInside_eq_ok.1 hts).2
    refine .edit (e := ⟨.matrix g', some (out, pattern)⟩) (Reading.matrix_eq_ok.1 hg) ?_
      List.mem_cons_self ?_
    · simp [Reading.matrix_own hg, hfill]
    · intro y hy
      obtain rfl := Option.some.inj hy
      exact List.mem_cons_of_mem of List.mem_cons_self
  | write of pattern limit =>
    exact .bind fun _ _ => .bind fun _ _ => .bind fun _ _ => .ok .none

theorem PatternStep.plan_sure (t : PatternStep p) :
    Yields (fun plan => Sure r t.binds plan.changes) (t.plan r) := by
  cases t with
  | create pattern out => exact .ok (.one List.mem_cons_self)
  | ofJson text out =>
    rw [plan]
    split
    · exact .ok (.one List.mem_cons_self)
    · exact .error
  | copy of out => exact .bind fun _ _ => .ok (.one List.mem_cons_self)
  | query of q => exact .bind fun _ _ => .bind fun _ _ => .ok .none
  | edit of e => exact .bind fun _ _ => .bind fun _ _ => .ok (.one List.mem_cons_self)
  | same of other => exact .bind fun _ _ => .bind fun _ _ => .ok .none
  | compress of matrix c out =>
    exact .bind fun _ _ => .bind fun _ _ => .bind fun _ _ => .ok (.one List.mem_cons_self)
  | check of matrix threshold =>
    exact .bind fun _ _ => .bind fun _ _ => .bind fun _ _ => .ok .none
  | compressRow matrix i columns threshold => exact .bind fun _ _ => .bind fun _ _ => .ok .none

theorem HandleStep.plan_sure (t : HandleStep p) :
    Yields (fun plan => Sure r t.binds plan.changes) (t.plan r) := by
  cases t with
  | create out x => exact .ok (.one List.mem_cons_self)
  | copy of out => exact .bind fun _ _ => .ok (.one List.mem_cons_self)
  | write of w =>
    refine .bind fun x hx => .bind fun y hy => .ok (.edit (e := ⟨y, none⟩)
      (Reading.container_eq_ok.1 hx) ?_ List.mem_cons_self nofun)
    simp [Reading.own_container hx, Rewrite.run_owned hy, Except.map]
  | touch of =>
    refine .bind fun x hx => .ok (.edit (e := ⟨x.owned, none⟩)
      (Reading.container_eq_ok.1 hx) ?_ List.mem_cons_self nofun)
    simp [Reading.own_container hx, Except.map]
  | intoInner of => exact .bind fun _ _ => .ok (.one List.mem_cons_self)
  | inspect of => exact .bind fun _ _ => .ok .none

theorem SharingStep.plan_sure (t : SharingStep p) :
    Yields (fun plan => Sure r t.binds plan.changes) (t.plan r) := by
  cases t with
  | createShared out x => exact .ok (.one List.mem_cons_self)
  | clone kind of out => exact .bind fun _ _ => .ok (.one List.mem_cons_self)
  | adopt kind owner out => exact .bind fun _ _ => .bind fun _ _ => .ok (.one List.mem_cons_self)
  | cloneShared of out => exact .bind fun _ _ => .ok (.one List.mem_cons_self)
  | observe of out => exact .bind fun _ _ => .ok (.one List.mem_cons_self)
  | drop of =>
    rw [plan]
    split
    · exact .ok (.one List.mem_cons_self)
    · exact .ok .none
  | rename of target =>
    rw [plan]
    split
    · exact .ok (.one ⟨List.mem_cons_self, List.mem_cons_of_mem of List.mem_cons_self⟩)
    · exact .ok .none

theorem MemoryStep.plan_sure (t : MemoryStep p) :
    Yields (fun plan => Sure r t.binds plan.changes) (t.plan r) := by
  cases t with
  | lend out v => exact .ok (.one List.mem_cons_self)
  | writeScalars file v => exact .ok (.one trivial)
  | writeOctets file octets => exact .ok (.one trivial)
  | fileContents file => exact .bind fun _ _ => .ok .none
  | writeNowhere v => exact .error

theorem Action.plan_sure (a : Action p) :
    Yields (fun plan => Sure r a.binds plan.changes) (a.plan r) := by
  cases a with
  | vector t => exact t.plan_sure
  | matrix t => exact t.plan_sure
  | pattern t => exact t.plan_sure
  | handle t => exact t.plan_sure
  | sharing t => exact t.plan_sure
  | memory t => exact t.plan_sure

end CowArrays
