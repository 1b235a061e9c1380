import CowArrays.Grid.Build
import CowArrays.Grid.Combine
import CowArrays.Grid.Product
import CowArrays.Grid.Text
import CowArrays.Session.Vectors
import CowArrays.Triplet.Load
import CowArrays.Triplet.Writer

/-!
Steps on matrices, among them reading one from a triplet text and writing it as one.
-/

namespace CowArrays

inductive MatrixQuery
  | shape
  | get? (i j : Nat)
  | get (i j : Nat)
  | entries
  | trace
  | display
  | inspect (tall : Bool)

inductive MatrixEdit (p : Precision)
  | set (i j : Nat) (x : Scalar p)
  | add (i j : Nat) (x : Scalar p)
  | scale (a : Scalar p)
  /-- Whatever a caller does with the access to the entries. -/
  | write (f : Grid p → Grid p)
  | axpy (a : Scalar p) (other : Name)
  | clear
  | clearRow (i : Nat)
  | clearCol (j : Nat)
  | unitRow (i : Nat)
  | unitCol (j : Nat)
  /-- Adds the entries of another matrix that exceed `eps`; none of them means no change. -/
  | addExceeding (source : Name) (eps : Scalar p)

inductive MatrixStep (p : Precision)
  | filled (rows cols : Nat) (x : Scalar p) (out : Name)
  | identity (size : Nat) (out : Name)
  | create (g : Grid p) (out : Name)
  /-- Zeros; the pattern of a dense matrix does not matter, but it has to exist. -/
  | ofPattern (rows cols : Nat) (pattern out : Name)
  | rebuild (of out : Name)
  | copy (of out : Name)
  | assign (of source : Name)
  | query (of : Name) (query : MatrixQuery)
  | edit (of : Name) (edit : MatrixEdit p)
  | equalShape (of other : Name)
  | same (of other : Name)
  | isTransposed (of other : Name) (tolerance : Scalar p)
  /-- The product with vector `x`, stored in vector `y`. -/
  | multiply (walk : Walk) (of x y : Name)
  | diagonal (of out : Name)
  | load (of : Name) (feed : Feed) (out : Name)
  /-- The triplet text of the entries at a pattern, into a writer with or without a limit. -/
  | write (of pattern : Name) (limit : Option Nat)

variable {p : Precision}

def MatrixQuery.answer (q : MatrixQuery) (g : Grid p) : Attempt (Answer p) :=
  match q with
  | shape => .ok (.counts [g.rows, g.cols])
  | get? i j => .ok (.scalar? (g.read? i j))
  | get i j => (g.read i j).map .scalar
  | entries => g.toTriples.map .entries
  | trace => g.trace.map .scalar
  | display => .ok (.text g.display)
  | inspect tall => .ok (.text (if tall then g.outline.tall 0 else g.outline.flat))

def MatrixEdit.check (e : MatrixEdit p) (r : Reading p) (g : Grid p) : Attempt Unit :=
  match e with
  | set i j _ => g.checkRange i j
  | add i j _ => g.checkRange i j
  | scale _ => .ok ()
  | write _ => .ok ()
  | axpy _ other => do checkShape g.shape (← r.matrix other).shape
  | clear => .ok ()
  | clearRow i => checkRow i g.rows
  | clearCol j => checkCol j g.cols
  | unitRow i => do
    checkRow i g.rows
    checkCol i g.cols
  | unitCol j => do
    checkCol j g.cols
    checkRow j g.rows
  | addExceeding source _ => do checkShape g.shape (← r.matrix source).shape

/-- Whether there is anything to change. Where there is not, the matrix is not touched at all. -/
def MatrixEdit.isNeeded (e : MatrixEdit p) (r : Reading p) : Attempt Bool :=
  match e with
  | addExceeding source eps => do (← r.matrix source).anyExceeding eps
  | _ => .ok true

def MatrixEdit.run (e : MatrixEdit p) (r : Reading p) (g : Grid p) : Attempt (Grid p) :=
  match e with
  | set i j x => g.put i j x
  | add i j x => g.bump i j x
  | scale a => .ok (g.scale a)
  | write f => .ok (f g)
  | axpy a other => do g.addScaled a (← r.matrix other)
  | clear => g.clear
  | clearRow i => g.clearRow i
  | clearCol j => g.clearCol j
  | unitRow i => g.unitRow i
  | unitCol j => g.unitCol j
  | addExceeding source eps => do g.addExceeding (← r.matrix source) eps

def planMatrix (out : Name) (g : Grid p) : Plan p := .change [.create .matrix out (.matrix g)]

/-- What a writer, with or without a limit, accepts of the triplet text. -/
def writeWithin (limit : Option Nat) (g : Grid p) (pattern : Pattern) : Attempt Octets := do
  match limit with
  | none => (← Triplet.write Sink.unbounded g pattern).outcome
  | some room => (← Triplet.write (Sink.limited room) g pattern).outcome

/-- Octets as text where they are one. -/
def Answer.written (octets : Octets) : Answer p :=
  match String.fromUTF8? octets.toByteArray with
  | some content => .text content
  | none => .octets octets

def MatrixStep.plan (r : Reading p) : MatrixStep p → Attempt (Plan p)
  | filled rows cols x out => .ok (planMatrix out (.filled rows cols x))
  | identity size out => do return planMatrix out (← Grid.identity size)
  | create g out => .ok (planMatrix out g)
  | ofPattern rows cols pattern out => do
    let _ ← r.pattern pattern
    return planMatrix out (.filled rows cols .zero)
  | rebuild of out => do return planMatrix out (← (← r.matrix of).rebuild)
  | copy of out => do return planMatrix out (← r.matrix of)
  | assign of source => do
    let _ ← r.matrix of
    return planMatrix of (← r.matrix source)
  | query of q => do return .tell (← q.answer (← r.matrix of))
  | edit of e => do
    e.check r (← r.matrix of)
    if ← e.isNeeded r then return .edit of fun r => do return .matrix (← e.run r (← r.matrix of))
    else return .tell .done
  | equalShape of other => do
    return .tell (.bool ((← r.matrix of).shape == (← r.matrix other).shape))
  | same of other => do return .tell (.bool ((← r.matrix of).same (← r.matrix other)))
  | isTransposed of other tolerance => do
    return .tell (.bool (← (← r.matrix of).isTransposed (← r.matrix other) tolerance))
  | multiply walk of x y => do
    (← r.matrix of).checkFactors (← r.vector x) (← r.vector y)
    return .edit y fun r => do
      return .vector (← (← r.matrix of).apply walk (← r.vector x) (← r.vector y))
  | diagonal of out => do
    return .change [.create .vector out (.vector (← (← r.matrix of).diagonal).toArray)]
  | load of feed out => do
    let g ← r.matrix of
    let ts ← Triplet.readInside g.rows g.cols feed
    return .change [.edit of fun r => do
      let (g, pattern) ← Triplet.fill (← r.matrix of) ts
      return ⟨.matrix g, some (out, pattern)⟩]
  | write of pattern limit => do
    let g ← r.matrix of
    let pattern ← r.pattern pattern
    return .tell (.written (← writeWithin limit g pattern))

end CowArrays
