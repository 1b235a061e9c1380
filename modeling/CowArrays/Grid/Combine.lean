import CowArrays.Grid.Basic

/-!
Sums over the diagonal, comparison with a transpose, and sums of two grids.
-/

namespace CowArrays.Grid

variable {p : Precision}

/-- The entries on the diagonal, which is as long as the shorter side. -/
def diagonal (g : Grid p) : Attempt (List (Scalar p)) :=
  (List.range (min g.rows g.cols)).mapM fun i => g.read i i

/-- Sum over the diagonal from the left, starting from zero. -/
def trace (g : Grid p) : Attempt (Scalar p) :=
  (List.range (min g.rows g.cols)).foldlM (fun sum i => return sum + (← g.read i i)) .zero

/-- Whether `h` has the transposed shape and no entry of it is further than `tolerance` from its
counterpart. Entries are compared row by row, up to the first that is. -/
def isTransposed (g h : Grid p) (tolerance : Scalar p) : Attempt Bool :=
  if g.rows = h.cols ∧ g.cols = h.rows then
    (List.range g.rows).allM fun i => (List.range g.cols).allM fun j =>
      return ((← g.read i j) - (← h.read j i)).magnitude.le tolerance
  else return false

def anyExceeding (h : Grid p) (eps : Scalar p) : Attempt Bool :=
  (positions h.rows h.cols).anyM fun (i, j) => return eps.lt (← h.read i j).magnitude

def addExceeding (g h : Grid p) (eps : Scalar p) : Attempt (Grid p) :=
  (positions h.rows h.cols).foldlM (fun g (i, j) => do
    let x ← h.read i j
    if eps.lt x.magnitude then g.add i j x else return g) g

end CowArrays.Grid
