import CowArrays.Decimal.Style
import CowArrays.Grid.Basic
import CowArrays.Pattern.Basic
import CowArrays.Scalar.Octets
import CowArrays.Triplet.Sink

/-!
Writing the entries of a grid at the positions of a pattern, one triplet line for each. All
positions are checked before anything is written.
-/

namespace CowArrays.Triplet

variable {p : Precision}

def line (i j : Nat) (x : Scalar p) : String :=
  s!"{i},{j}," ++ x.toDouble.scientific ++ "\n"

/-- Rows before columns, position by position. -/
def checkPositions (g : Grid p) (positions : List (Nat × Nat)) : Attempt Unit :=
  positions.forM fun (i, j) => do
    checkRow i g.rows
    checkCol j g.cols

def linesOf (g : Grid p) (pattern : Pattern) : Attempt (List String) := do
  checkPositions g pattern.positions
  pattern.positions.mapM fun (i, j) => return line i j (← g.read i j)

/-- Hands the lines to a sink, once all of them are known to be there. -/
def write {σ : Type} (sink : Sink σ) (g : Grid p) (pattern : Pattern) :
    Attempt (Sink.Delivery σ) := do
  return sink.deliver (← linesOf g pattern)

end CowArrays.Triplet
