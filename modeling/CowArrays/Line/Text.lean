import CowArrays.Decimal.Style
import CowArrays.Line.Basic
import CowArrays.Text.Outline

/-!
Written forms of lines: in brackets for readers, and as outlines for inspection.
-/

namespace CowArrays

variable {p : Precision}

def bracketed (xs : List (Scalar p)) : String :=
  "[" ++ String.intercalate ", " (xs.map Scalar.display) ++ "]"

namespace Line

def display (v : Line p) : String := bracketed v.toList

def entriesOutline (v : Line p) : Outline := .list (v.toList.map fun x => .atom x.inspect)

def outline (v : Line p) : Outline :=
  .record "DenseVector" [("data_type", .atom p.tag), ("values", v.entriesOutline)] false

def handleOutline (v : Line p) : Outline :=
  .record "CowHandle" [("inner", v.entriesOutline)] false

end Line

def Mapped.outline (v : Line p) (isView : Bool) : Outline :=
  .record "MappedVector"
    [("data_type", .atom p.tag), ("view", .atom (if isView then "true" else "false")),
      ("values", v.entriesOutline)] false

end CowArrays
