import CowArrays.Grid.Basic

/-!
The product of a grid and a line. There are two ways to walk the grid, entry by entry and row by
row; both sum each row from the left, starting from zero, and round every product and every sum.
-/

namespace CowArrays

inductive Walk
  | byEntry
  | byRow
  deriving DecidableEq

namespace Grid

variable {p : Precision}

def applyByEntry (g : Grid p) (x y : Line p) : Attempt (Line p) :=
  (List.range g.rows).foldlM (fun y i => do
    let sum ← (List.range g.cols).foldlM (fun sum j => do
      return sum + (← g.entry i j) * (← x.entry j)) Scalar.zero
    y.put i sum) y

def applyByRow (g : Grid p) (x y : Line p) : Attempt (Line p) :=
  (List.range g.rows).foldlM (fun y i => do
    let sum ← (g.lane i).zipIdx.foldlM (fun sum (a, j) => do
      return sum + a * (← x.entry j)) Scalar.zero
    y.put i sum) y

/-- The product with `x` in the place of `y`; breaches unless the sizes fit. -/
def apply (walk : Walk) (g : Grid p) (x y : Line p) : Attempt (Line p) :=
  if x.size = g.cols ∧ y.size = g.rows then
    match walk with
    | .byEntry => g.applyByEntry x y
    | .byRow => g.applyByRow x y
  else .error .breach

def checkFactors (g : Grid p) (x y : Line p) : Attempt Unit := do
  checkShape (g.cols, 1) x.shape
  checkShape (g.rows, 1) y.shape

end Grid
end CowArrays
