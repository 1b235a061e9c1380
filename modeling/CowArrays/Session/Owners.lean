import CowArrays.Line.Text
import CowArrays.Session.Answer

/-!
Steps on handles, which can be over anything that is stored, on references that the caller holds, on
files and on the caller's memory.
-/

namespace CowArrays

/-- What a caller does with the access that a handle gives to what it is over. -/
inductive Rewrite (p : Precision)
  | vector (f : Line p → Line p)
  | matrix (f : Grid p → Grid p)
  | list (f : Line p → Line p)

inductive HandleStep (p : Precision)
  | create (out : Name) (x : Payload p)
  | copy (of out : Name)
  | write (of : Name) (rewrite : Rewrite p)
  /-- Makes the handle the only owner, and answers with the number of scalars. -/
  | touch (of : Name)
  /-- Consumes the handle, and answers with its scalars. -/
  | intoInner (of : Name)
  | inspect (of : Name)

/-- Steps that share cells. Containers join a cell, callers hold it, observers only watch it. -/
inductive SharingStep (p : Precision)
  | createShared (out : Name) (x : Payload p)
  /-- A container of a kind on the cell of a container of that kind. -/
  | clone (kind : Kind) (of out : Name)
  /-- A container of a kind on the cell that a reference of the caller owns. A handle can be on any
  cell. -/
  | adopt (kind : Kind) (owner out : Name)
  | cloneShared (of out : Name)
  | observe (of out : Name)
  | drop (of : Name)
  | rename (of target : Name)

inductive MemoryStep (p : Precision)
  | lend (out : Name) (v : Line p)
  | writeScalars (file : Name) (v : Line p)
  | writeOctets (file : Name) (octets : Octets)
  | fileContents (file : Name)
  /-- Writes into a directory that does not exist. -/
  | writeNowhere (v : Line p)

variable {p : Precision}

/-- What is written to the payload of a variable, where it is one that can be written so. -/
def Rewrite.run (w : Rewrite p) (name : Name) (x : Payload p) : Attempt (Payload p) :=
  match w, x with
  | vector f, .vector v => .ok (.vector (f v))
  | matrix f, .matrix g => .ok (.matrix (f g))
  | list f, .list v => .ok (.list (f v))
  | _, _ => .error (.unknown name)

def HandleStep.plan (r : Reading p) : HandleStep p → Attempt (Plan p)
  | create out x => .ok (.change [.create .handle out x])
  | copy of out => do return .change [.create .handle out (← r.container .handle of)]
  | write of w => do
    let _ ← w.run of (← r.container .handle of)
    return .edit of fun r => do w.run of (← r.container .handle of)
  | touch of => do
    let x ← r.container .handle of
    return { Plan.edit of (·.container .handle of) with answer := .count x.scalars.length }
  | intoInner of => do return ⟨.scalars (← r.container .handle of).scalars, [.drop of]⟩
  | inspect of => do return .tell (.text (← r.list of).handleOutline.flat)

def checkAdmits (kind : Kind) (name : Name) (x : Payload p) : Attempt Unit :=
  if kind.admits x then .ok () else .error (.unknown name)

def SharingStep.plan (r : Reading p) : SharingStep p → Attempt (Plan p)
  | createShared out x => .ok (.change [.createShared out x])
  | clone kind of out => do
    let _ ← r.container kind of
    return .change [.join kind out of]
  | adopt kind owner out => do
    checkAdmits kind owner (← r.shared owner)
    return .change [.join kind out owner]
  | cloneShared of out => do
    let _ ← r.shared of
    return .change [.hold out of]
  | observe of out => do
    let _ ← r.shared of
    return .change [.observe out of]
  | drop of =>
    match r.value? of with
    | some _ => .ok (.change [.drop of])
    | none => .ok (.tell .absent)
  | rename of target =>
    match r.value? of with
    | some _ => .ok (.change [.rename of target])
    | none => .ok (.tell .absent)

def MemoryStep.plan (r : Reading p) : MemoryStep p → Attempt (Plan p)
  | lend out v => .ok (.change [.lend out (Scalar.encode v.toList)])
  | writeScalars file v => .ok (.change [.putFile file (Scalar.encode v.toList)])
  | writeOctets file octets => .ok (.change [.putFile file octets])
  | fileContents file => do return .tell (.octets (← r.file file))
  | writeNowhere _ => .error (.stream .missing)

end CowArrays
