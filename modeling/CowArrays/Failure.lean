import CowArrays.Json.Fault

/-!
The reasons for which a call gives no result, and the words they are reported in.
-/

namespace CowArrays

abbrev Shape := Nat × Nat

def Shape.text (s : Shape) : String := s!"({s.1}, {s.2})"

inductive Axis
  | row
  | column
  deriving DecidableEq

/-- What a container checks before it does anything. -/
inductive Refusal
  | indexOutOfRange (axis : Axis) (index bound : Nat)
  | shapeMismatch (expected found : Shape)
  | invalidThreshold
  | misaligned
  deriving DecidableEq

/-- An index outside the range that the caller of an entry access has to keep. -/
inductive RangeFault
  | vector (index size : Nat)
  | matrix (row col rows cols : Nat)
  | pattern (row rows : Nat)
  deriving DecidableEq

inductive StreamFault
  | missing
  | notText
  | rejected (reason : String)
  deriving DecidableEq

inductive Failure
  | refused (reason : Refusal)
  | outOfRange (fault : RangeFault)
  | stream (fault : StreamFault)
  | parse (line : Nat) (reason : String)
  | json (fault : Json.Fault)
  /-- A storage was accessed outside its bounds or combined with one of another shape. -/
  | breach
  /-- No variable of the wanted kind has this name. -/
  | unknown (name : String)
  deriving DecidableEq

abbrev Attempt := Except Failure

def Axis.name : Axis → String
  | row => "row"
  | column => "column"

def Axis.tag : Axis → String
  | row => "Row"
  | column => "Column"

def Refusal.message : Refusal → String
  | indexOutOfRange axis index bound =>
    axis.name ++ s!" index {index} is out of range (bound {bound})"
  | shapeMismatch expected found =>
    "shape " ++ found.text ++ " does not match expected shape " ++ expected.text
  | invalidThreshold => "compression threshold must be nonnegative"
  | misaligned => "byte buffer is not aligned or sized for the element type"

def Refusal.debug : Refusal → String
  | indexOutOfRange axis index bound =>
    "IndexOutOfRange \x7b axis: " ++ axis.tag ++ s!", index: {index}, bound: {bound} \x7d"
  | shapeMismatch expected found =>
    "ShapeMismatch \x7b expected: " ++ expected.text ++ ", found: " ++ found.text ++ " \x7d"
  | invalidThreshold => "InvalidThreshold"
  | misaligned => "Misaligned"

def RangeFault.message : RangeFault → String
  | vector index size => s!"index {index} out of range for vector of size {size}"
  | matrix row col rows cols => s!"entry ({row}, {col}) out of range for {rows}x{cols} matrix"
  | pattern row rows => s!"row {row} out of range for pattern with {rows} rows"

def StreamFault.message : StreamFault → String
  | missing => "No such file or directory (os error 2)"
  | notText => "stream did not contain valid UTF-8"
  | rejected reason => reason

def Failure.message : Failure → String
  | refused reason => reason.message
  | outOfRange fault => fault.message
  | stream fault => "i/o error: " ++ fault.message
  | parse line reason => s!"line {line}: " ++ reason
  | json .malformed => "syntax"
  | json .unsuitable => "data"
  | json .truncated => "eof"
  | breach => "storage accessed outside its bounds"
  | unknown name => "no such variable: " ++ name

end CowArrays
