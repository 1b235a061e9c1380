import CowArrays.Compression.Settings
import CowArrays.Pattern.Text
import CowArrays.Session.Answer

/-!
Steps on sparsity patterns, among them their compression against a matrix.
-/

namespace CowArrays

inductive PatternQuery
  | size
  | count
  | lengths
  | contains (i j : Nat)
  | row (i : Nat)
  | row? (i : Nat)
  | positions
  | display
  | inspect
  | json (tall : Bool)

inductive PatternEdit
  | insert (i j : Nat)
  | erase (i j : Nat)
  | insertAll (i : Nat) (js : List Nat)

/-- The ways to compress: directly with a threshold of the element type, in parallel, or with
settings. -/
inductive Compressor (p : Precision)
  | sequential (threshold : Scalar p)
  | parallel (threshold : Scalar p)
  | settings (settings : Settings)

inductive PatternStep (p : Precision)
  | create (pattern : Pattern) (out : Name)
  | ofJson (text : Octets) (out : Name)
  | copy (of out : Name)
  | query (of : Name) (query : PatternQuery)
  | edit (of : Name) (edit : PatternEdit)
  | same (of other : Name)
  | compress (of matrix : Name) (compressor : Compressor p) (out : Name)
  /-- Only the checks that precede compression. -/
  | check (of matrix : Name) (threshold : Scalar p)
  /-- Compression of one row against a matrix. -/
  | compressRow (matrix : Name) (i : Nat) (columns : Columns) (threshold : Scalar p)

variable {p : Precision}

def PatternQuery.answer (q : PatternQuery) (x : Pattern) : Attempt (Answer p) :=
  match q with
  | .size => .ok (.count x.size)
  | .count => .ok (.count x.count)
  | .lengths => .ok (.counts (x.rows.map Columns.size))
  | .contains i j => .ok (.bool (x.contains i j))
  | .row i => (x.row i).map fun cs => .counts cs.toList
  | .row? i => .ok (match x.row? i with
    | some cs => .counts cs.toList
    | none => .absent)
  | .positions => .ok (.pairs x.positions)
  | .display => .ok (.text x.display)
  | .inspect => .ok (.text x.outline.flat)
  | .json tall => .ok (.text (if tall then x.toJson.pretty 0 else x.toJson.compact))

def PatternEdit.run (e : PatternEdit) (x : Pattern) : Attempt (Answer p × Pattern) :=
  match e with
  | .insert i j => do
    let (x, isNew) ← x.insert i j
    return (.bool isNew, x)
  | .erase i j => do
    let (x, wasThere) ← x.erase i j
    return (.bool wasThere, x)
  | .insertAll i js => do return (.done, ← x.insertAll i js)

/-- Compression; parallel rows finish as they come. -/
def Compressor.run (c : Compressor p) (x : Pattern) (g : Grid p) : Attempt Pattern :=
  match c with
  | .sequential threshold => CowArrays.compress x g threshold
  | .parallel threshold => compressInOrder (Schedule.inOrder x.size) x g threshold
  | .settings s => s.compress .inOrder x g

def PatternStep.plan (r : Reading p) : PatternStep p → Attempt (Plan p)
  | create pattern out => .ok (.change [.setPattern out pattern])
  | ofJson text out =>
    match Pattern.ofJson text with
    | .ok x => .ok (.change [.setPattern out x])
    | .error fault => .error (.json fault)
  | copy of out => do return .change [.setPattern out (← r.pattern of)]
  | query of q => do return .tell (← q.answer (← r.pattern of))
  | edit of e => do
    let (answer, x) ← e.run (← r.pattern of)
    return ⟨answer, [.setPattern of x]⟩
  | same of other => do return .tell (.bool (decide ((← r.pattern of) = (← r.pattern other))))
  | compress of matrix c out => do
    return .change [.setPattern out (← c.run (← r.pattern of) (← r.matrix matrix))]
  | check of matrix threshold => do
    checkCompression (← r.pattern of) (← r.matrix matrix) threshold
    return .tell .done
  | compressRow matrix i columns threshold => do
    let kept ← CowArrays.compressRow i columns (← r.matrix matrix) threshold
    return .tell (.counts kept.toList)

end CowArrays
