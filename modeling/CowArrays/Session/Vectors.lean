import CowArrays.Line.Text
import CowArrays.Session.Answer

/-!
Steps on dense and mapped vectors. The two kinds answer alike, but each has its own sum and its own
comparison, and a mapped vector that is changed becomes an own line. A change is checked first; what
it comes to is worked out when the vector has a cell of its own.
-/

namespace CowArrays

inductive VectorKind
  | dense
  | mapped
  deriving DecidableEq

def VectorKind.kind : VectorKind → Kind
  | dense => .vector
  | mapped => .mapped

inductive VectorQuery
  | size
  | isEmpty
  | get? (i : Nat)
  | get (i : Nat)
  | toList
  | isView
  | display
  | inspect (tall : Bool)

inductive VectorEdit (p : Precision)
  | set (i : Nat) (x : Scalar p)
  | add (i : Nat) (x : Scalar p)
  | scale (a : Scalar p)
  /-- Whatever a caller does with the access to the entries. -/
  | write (f : Line p → Line p)
  /-- Adds `a` times another vector of the same kind. -/
  | axpy (a : Scalar p) (other : Name)

inductive VectorStep (p : Precision)
  | create (kind : VectorKind) (out : Name) (v : Line p)
  | query (kind : VectorKind) (of : Name) (query : VectorQuery)
  | edit (kind : VectorKind) (of : Name) (edit : VectorEdit p)
  | equalSize (kind : VectorKind) (of other : Name)
  | same (kind : VectorKind) (of other : Name)
  | copy (kind : VectorKind) (of out : Name)
  /-- Replaces a vector by a deep copy of a dense one. -/
  | assign (kind : VectorKind) (of source : Name)
  /-- Consumes a mapped vector and makes a dense one of it. -/
  | intoDense (of out : Name)
  | viewBuffer (buffer : Name) (start stop : Nat) (out : Name)
  | viewOctets (slice : Slice) (out : Name)
  | viewFile (file out : Name)

namespace VectorKind

variable {p : Precision}

def read (k : VectorKind) (r : Reading p) (name : Name) : Attempt (Line p × Bool) :=
  match k with
  | dense => (r.vector name).map fun v => (v, false)
  | mapped => r.mapped name

/-- The entries of a vector that is about to be changed. By then it is no view any more. -/
def readOwn (k : VectorKind) (r : Reading p) (name : Name) : Attempt (Line p) := do
  let (v, isView) ← k.read r name
  if isView then throw .breach else return v

def payload (k : VectorKind) (v : Line p) : Payload p :=
  match k with
  | dense => .vector v
  | mapped => .mapped v false

def addScaled (k : VectorKind) (v : Line p) (a : Scalar p) (w : Line p) : Attempt (Line p) :=
  match k with
  | dense => v.addScaled a w
  | mapped => Mapped.addScaled v a w

def same (k : VectorKind) (v w : Line p) : Bool :=
  match k with
  | dense => v.same w
  | mapped => Mapped.same v w

def outline (k : VectorKind) (v : Line p) (isView : Bool) : Outline :=
  match k with
  | dense => v.outline
  | mapped => Mapped.outline v isView

end VectorKind

variable {p : Precision}

def VectorQuery.answer (q : VectorQuery) (k : VectorKind) (v : Line p) (isView : Bool) :
    Attempt (Answer p) :=
  match q with
  | .size => .ok (.count v.size)
  | .isEmpty => .ok (.bool (v.size == 0))
  | .get? i => .ok (.scalar? v[i]?)
  | .get i => (v.read i).map .scalar
  | .toList => .ok (.scalars v.toList)
  | .isView => .ok (.bool isView)
  | .display => .ok (.text v.display)
  | .inspect tall =>
    let o := k.outline v isView
    .ok (.text (if tall then o.tall 0 else o.flat))

def VectorEdit.check (e : VectorEdit p) (k : VectorKind) (r : Reading p) (v : Line p) :
    Attempt Unit :=
  match e with
  | set i _ => v.checkRange i
  | add i _ => v.checkRange i
  | scale _ => .ok ()
  | write _ => .ok ()
  | axpy _ other => do checkShape v.shape (← k.read r other).1.shape

def VectorEdit.run (e : VectorEdit p) (k : VectorKind) (r : Reading p) (v : Line p) :
    Attempt (Line p) :=
  match e with
  | set i x => v.put i x
  | add i x => v.add i x
  | scale a => .ok (v.scale a)
  | write f => .ok (f v)
  | axpy a other => do k.addScaled v a (← k.read r other).1

def VectorStep.plan (r : Reading p) : VectorStep p → Attempt (Plan p)
  | create k out v => .ok (.change [.create k.kind out (k.payload v)])
  | query k of q => do
    let (v, isView) ← k.read r of
    return .tell (← q.answer k v isView)
  | edit k of e => do
    let (v, _) ← k.read r of
    e.check k r v
    return .edit of fun r => do return k.payload (← e.run k r (← k.readOwn r of))
  | equalSize k of other => do
    let (v, _) ← k.read r of
    let (w, _) ← k.read r other
    return .tell (.bool (v.size == w.size))
  | same k of other => do
    let (v, _) ← k.read r of
    let (w, _) ← k.read r other
    return .tell (.bool (k.same v w))
  | copy k of out => do
    let (v, _) ← k.read r of
    return .change [.create k.kind out (k.payload v)]
  | assign k of source => do
    let _ ← k.read r of
    return .change [.create k.kind of (k.payload (← r.vector source))]
  | intoDense of out => do
    let (v, _) ← r.mapped of
    return .change [.drop of, .create .vector out (.vector v)]
  | viewBuffer buffer start stop out => do
    let v ← r.buffer buffer
    if start ≤ stop ∧ stop ≤ v.size then
      return .change [.view out (.buffer buffer) (start * p.byteSize) (stop - start)]
    else throw (.unknown buffer)
  | viewOctets slice out => do
    let count ← castCount p slice
    return .change [.view out (.octets slice.whole) slice.offset count]
  | viewFile file out => do
    let count ← castCount p (.all (← r.file file))
    return .change [.view out (.file file) 0 count]

end CowArrays
