import CowArrays.Grid.Build
import CowArrays.Pattern.Basic
import CowArrays.Triplet.Reader

/-!
Reading a triplet text into a grid. The text is read as a whole, then all positions are checked,
and only then is the grid cleared; repeated positions add up in the order of the text.
-/

namespace CowArrays.Triplet

variable {p : Precision}

/-- Rows before columns, triplet by triplet. -/
def checkInside (rows cols : Nat) (ts : List Triplet) : Attempt Unit :=
  ts.forM fun t => do
    checkRow t.row rows
    checkCol t.col cols

def accumulate (g : Grid p) (pattern : Pattern) (t : Triplet) : Attempt (Grid p × Pattern) := do
  let g ← g.add t.row t.col (.ofDouble t.value)
  let (pattern, _) ← pattern.insert t.row t.col
  return (g, pattern)

def readInside (rows cols : Nat) (feed : Feed) : Attempt (List Triplet) := do
  let ts ← readFeed feed
  checkInside rows cols ts
  return ts

/-- Clears a grid, puts triplets into it, and marks their positions in a pattern. -/
def fill (g : Grid p) (ts : List Triplet) : Attempt (Grid p × Pattern) := do
  let cleared ← g.clear
  ts.foldlM (fun (g, pattern) t => accumulate g pattern t) (cleared, .empty g.rows)

end CowArrays.Triplet
