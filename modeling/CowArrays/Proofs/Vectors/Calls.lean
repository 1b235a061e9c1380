import CowArrays.Proofs.Sharing.Plain

/-!
Programs over one family of vectors, whose variables are dense vectors or mapped ones, as one likes.
A program is a list of calls; which steps they are depends on the kind. A mapped vector that is made
over memory is a view of it, a dense one is made of a copy of the scalars that lie there.
-/

namespace CowArrays

variable {p : Precision}

/-- Memory that a vector can be made over: part of the caller's memory, or octets. -/
inductive Memory
  | buffer (name : Name) (start stop : Nat)
  | octets (slice : Slice)

def Memory.entries (r : Reading p) : Memory → Attempt (Line p)
  | .buffer name start stop => do
    let v ← r.buffer name
    if start ≤ stop ∧ stop ≤ v.size then return v.extract start stop else throw (.unknown name)
  | .octets slice => do return (← cast p slice).toArray

def Memory.view (out : Name) : Memory → VectorStep p
  | .buffer name start stop => .viewBuffer name start stop out
  | .octets slice => .viewOctets slice out

inductive VectorCall (p : Precision)
  /-- Memory of the caller. -/
  | lend (buffer : Name) (v : Line p)
  /-- A dense vector outside the family, for members of it to be assigned from. -/
  | backend (out : Name) (v : Line p)
  | ofValues (out : Name) (v : Line p)
  | spanning (memory : Memory) (out : Name)
  | clone (of out : Name)
  | copy (of out : Name)
  | query (of : Name) (query : VectorQuery)
  | edit (of : Name) (edit : VectorEdit p)
  | assign (of source : Name)
  | same (of other : Name)
  | equalSize (of other : Name)
  /-- Turns a vector into a dense one outside the family. -/
  | intoDense (of out : Name)
  | drop (of : Name)

/-- Questions about the entries of a vector, and not about how it is stored. -/
def VectorQuery.OfEntries : VectorQuery → Prop
  | isView => False
  | inspect _ => False
  | _ => True

def VectorEdit.Typed (family : Name → Prop) : VectorEdit p → Prop
  | axpy _ other => family other
  | _ => True

/-- Whether a call uses names as their variables are declared: those of the family for vectors of
the family, all others for memory of the caller and for dense vectors. -/
def VectorCall.Typed (family : Name → Prop) : VectorCall p → Prop
  | lend buffer _ => ¬family buffer
  | backend out _ => ¬family out
  | ofValues out _ => family out
  | spanning _ out => family out
  | clone of out => family of ∧ family out
  | copy of out => family of ∧ family out
  | query of q => family of ∧ q.OfEntries
  | edit of e => family of ∧ e.Typed family
  | assign of source => family of ∧ ¬family source
  | same of other => family of ∧ family other
  | equalSize of other => family of ∧ family other
  | intoDense of out => family of ∧ ¬family out
  | drop of => family of

/-- What a call does when the family is of a kind. It fails before it does anything where a copy is
to be made of scalars that are not there, or a vector is to be moved that is not there. -/
def VectorCall.action (k : VectorKind) (r : Reading p) : VectorCall p → Attempt (Action p)
  | lend buffer v => .ok (.memory (.lend buffer v))
  | backend out v => .ok (.vector (.create .dense out v))
  | ofValues out v => .ok (.vector (.create k out v))
  | spanning memory out =>
    match k with
    | .dense => do return .vector (.create .dense out (← memory.entries r))
    | .mapped => .ok (.vector (memory.view out))
  | clone of out => .ok (.sharing (.clone k.kind of out))
  | copy of out => .ok (.vector (.copy k of out))
  | query of q => .ok (.vector (.query k of q))
  | edit of e => .ok (.vector (.edit k of e))
  | assign of source => .ok (.vector (.assign k of source))
  | same of other => .ok (.vector (.same k of other))
  | equalSize of other => .ok (.vector (.equalSize k of other))
  | intoDense of out =>
    match k with
    | .dense => do
      let _ ← r.vector of
      return .sharing (.rename of out)
    | .mapped => .ok (.vector (.intoDense of out))
  | drop of => .ok (.sharing (.drop of))

namespace Store

def perform (s : Store p) (k : VectorKind) (c : VectorCall p) : Attempt (Answer p) × Store p :=
  match c.action k s.reading with
  | .ok a => s.step (.act a)
  | .error failure => (.error failure, s)

def performAll (s : Store p) (k : VectorKind) :
    List (VectorCall p) → List (Attempt (Answer p) × Store p)
  | [] => []
  | c :: rest =>
    let next := s.perform k c
    next :: next.2.performAll k rest

end Store

def Plain.perform (s : Plain p) (k : VectorKind) (c : VectorCall p) :
    Attempt (Answer p) × Plain p :=
  match c.action k s.reading with
  | .ok a => s.act a
  | .error failure => (.error failure, s)

end CowArrays
