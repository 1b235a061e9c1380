import CowArrays.Grid.Basic
import CowArrays.Pattern.Basic

/-!
Compression drops from a pattern the positions whose entries are too small: a position stays when
the magnitude of its entry exceeds a threshold. Rows are independent tasks, so they can also be
done in any order, as long as their results are put back in the order of the rows.
-/

namespace CowArrays

variable {p : Precision}

/-- The columns of one row whose entries exceed the threshold in magnitude, each column checked
before its entry is read. -/
def compressRow (i : Nat) (columns : Columns) (g : Grid p) (threshold : Scalar p) :
    Attempt Columns :=
  columns.keep fun j => do
    checkCol j g.cols
    return threshold.lt (← g.read i j).magnitude

def checkCompression (pattern : Pattern) (g : Grid p) (threshold : Scalar p) : Attempt Unit := do
  checkThreshold threshold
  if pattern.size = g.rows then return ()
  else throw (.refused (.shapeMismatch (pattern.size, g.cols) g.shape))

/-- The pattern without the positions whose entries do not exceed the threshold in magnitude. -/
def compress (pattern : Pattern) (g : Grid p) (threshold : Scalar p) : Attempt Pattern := do
  checkCompression pattern g threshold
  return ⟨← pattern.rows.zipIdx.mapM fun (columns, i) => compressRow i columns g threshold⟩

/-- The order in which a number of rows is finished. -/
abbrev Schedule := Nat → List Nat

def Schedule.inOrder : Schedule := List.range

def rowTask (pattern : Pattern) (g : Grid p) (threshold : Scalar p) (i : Nat) : Attempt Columns := do
  compressRow i (← pattern.row i) g threshold

def reassemble (rows : Nat) (finished : List (Nat × Columns)) : Attempt (List Columns) :=
  (List.range rows).mapM fun i =>
    match finished.lookup i with
    | some columns => .ok columns
    | none => .error .breach

/-- Compression with the rows finished in a given order. The first row to fail decides; otherwise
the results are put back in the order of the rows. -/
def compressInOrder (order : List Nat) (pattern : Pattern) (g : Grid p) (threshold : Scalar p) :
    Attempt Pattern := do
  checkCompression pattern g threshold
  let finished ← order.mapM fun i => do return (i, ← rowTask pattern g threshold i)
  return ⟨← reassemble pattern.size finished⟩

end CowArrays
