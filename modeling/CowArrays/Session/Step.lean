import CowArrays.Session.Matrices
import CowArrays.Session.Owners
import CowArrays.Session.Patterns

/-!
Sessions: steps on named variables, one after the other. Actions see values only; questions ask how
cells are shared; an upgrade depends on whether an observed cell is still owned.
-/

namespace CowArrays

/-- Steps that are decided on values. -/
inductive Action (p : Precision)
  | vector (step : VectorStep p)
  | matrix (step : MatrixStep p)
  | pattern (step : PatternStep p)
  | handle (step : HandleStep p)
  | sharing (step : SharingStep p)
  | memory (step : MemoryStep p)

inductive Question
  | isUnique (kind : Kind) (of : Name)
  | ownerCount (kind : Kind) (of : Name)
  | shares (kind : Kind) (of other : Name)

inductive Step (p : Precision)
  | act (action : Action p)
  | ask (question : Question)
  /-- Makes an owner out of an observer, if the cell is still owned. -/
  | upgrade (of out : Name)

variable {p : Precision}

def Action.plan (r : Reading p) : Action p → Attempt (Plan p)
  | vector s => s.plan r
  | matrix s => s.plan r
  | pattern s => s.plan r
  | handle s => s.plan r
  | sharing s => s.plan r
  | memory s => s.plan r

namespace Store

def cellOf (s : Store p) (kind : Kind) (name : Name) : Attempt CellId := do
  let _ ← s.reading.container kind name
  match s.find? name with
  | some (.container _ c) => return c
  | _ => throw (.unknown name)

def answer (s : Store p) : Question → Attempt (Answer p)
  | .isUnique kind of => do return .bool (s.isUnique (← s.cellOf kind of))
  | .ownerCount kind of => do return .count (s.strong (← s.cellOf kind of))
  | .shares kind of other => do
    return .bool ((← s.cellOf kind of) == (← s.cellOf kind other))

/-- An observed cell without owners is gone. -/
def upgradePlan (s : Store p) (of out : Name) : Attempt (Plan p) :=
  match s.find? of with
  | some (.observer c) =>
    .ok (if s.strong c = 0 then .tell .absent else .change [.hold out of])
  | _ => .error (.unknown of)

def plan (s : Store p) : Step p → Attempt (Plan p)
  | .act a => a.plan s.reading
  | .ask q => (s.answer q).map .tell
  | .upgrade of out => s.upgradePlan of out

/-- Runs a step: its answer or failure, and the store behind it. -/
def step (s : Store p) (t : Step p) : Attempt (Answer p) × Store p :=
  match s.plan t with
  | .ok plan =>
    let (outcome, s) := s.applyAll plan.changes
    (outcome.map fun _ => plan.answer, s)
  | .error failure => (.error failure, s)

theorem step_of_ok {s : Store p} {t : Step p} {plan : Plan p} (h : s.plan t = .ok plan) :
    s.step t = ((s.applyAll plan.changes).1.map fun _ => plan.answer,
      (s.applyAll plan.changes).2) := by
  simp only [step, h]

theorem step_of_error {s : Store p} {t : Step p} {failure : Failure}
    (h : s.plan t = .error failure) : s.step t = (.error failure, s) := by
  simp only [step, h]

/-- What each of some steps came to, and the store behind it. -/
def run (s : Store p) : List (Step p) → List (Attempt (Answer p) × Store p)
  | [] => []
  | t :: rest =>
    let next := s.step t
    next :: next.2.run rest

end Store
end CowArrays
