import CowArrays.Grid.Basic

/-!
Grids made entry by entry, and grids with rows or columns cleared.
-/

namespace CowArrays.Grid

variable {p : Precision}

/-- A grid whose entries are what `f` yields, called once for each position, row by row. -/
def buildM {m : Type → Type} [Monad m] (rows cols : Nat) (f : Nat → Nat → m (Scalar p)) :
    ExceptT Failure m (Grid p) :=
  (positions rows cols).foldlM (fun (g : Grid p) ij => do
    let x ← (ExceptT.lift (f ij.1 ij.2) : ExceptT Failure m (Scalar p))
    ExceptT.mk (pure (g.put ij.1 ij.2 x))) (filled rows cols .zero)

def build (rows cols : Nat) (f : Nat → Nat → Scalar p) : Attempt (Grid p) :=
  (buildM (m := Id) rows cols f).run

/-- What has the shape of a matrix and can be read at its positions. -/
structure Table (p : Precision) where
  rows : Nat
  cols : Nat
  read : Nat → Nat → Attempt (Scalar p)

/-- A copy of a table, made by reading every entry. -/
def ofTable (x : Table p) : Attempt (Grid p) := do
  let made ← (buildM (m := Attempt) x.rows x.cols x.read).run
  made

def table (g : Grid p) : Table p := ⟨g.rows, g.cols, g.read⟩

def rebuild (g : Grid p) : Attempt (Grid p) := ofTable g.table

def identity (n : Nat) : Attempt (Grid p) :=
  (List.range n).foldlM (fun g i => g.put i i .unit) (filled n n .zero)

def clear (g : Grid p) : Attempt (Grid p) :=
  (positions g.rows g.cols).foldlM (fun g (i, j) => g.put i j .zero) g

def clearRow (g : Grid p) (i : Nat) : Attempt (Grid p) :=
  (List.range g.cols).foldlM (fun g j => g.put i j .zero) g

def clearCol (g : Grid p) (j : Nat) : Attempt (Grid p) :=
  (List.range g.rows).foldlM (fun g i => g.put i j .zero) g

/-- Clears a row and puts a one on the diagonal. -/
def unitRow (g : Grid p) (i : Nat) : Attempt (Grid p) := do (← g.clearRow i).put i i .unit

def unitCol (g : Grid p) (j : Nat) : Attempt (Grid p) := do (← g.clearCol j).put j j .unit

end CowArrays.Grid
