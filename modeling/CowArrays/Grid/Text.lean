import CowArrays.Grid.Basic
import CowArrays.Line.Text

/-!
Written forms of grids: a heading and the rows in brackets, and an outline without the entries.
-/

namespace CowArrays.Grid

variable {p : Precision}

def display (g : Grid p) : String :=
  s!"{g.rows}x{g.cols} " ++ p.name ++ " matrix\n" ++
    String.join (g.toRows.map fun row => bracketed row ++ "\n")

def outline (g : Grid p) : Outline :=
  .record "DenseMatrix"
    [("rows", .atom (toString g.rows)), ("cols", .atom (toString g.cols)),
      ("data_type", .atom p.tag)] true

end CowArrays.Grid
