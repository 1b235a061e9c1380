import CowArrays.Compression.Filter
import CowArrays.Decimal.Style
import CowArrays.Json.Document
import CowArrays.Json.Value
import CowArrays.Text.Outline

/-!
Settings of compression: the threshold, whether rows may be done in parallel, and from how many
rows on. They are written as JSON, and read from it by field: absent fields keep their defaults.
-/

namespace CowArrays

structure Settings where
  threshold : Scalar .double
  parallel : Bool
  minParallelRows : Nat
  deriving DecidableEq

namespace Settings

def default : Settings := ⟨.zero, false, 1024⟩

instance : Inhabited Settings := ⟨default⟩

def withThreshold (threshold : Scalar .double) : Settings := { default with threshold }

def runsParallel (s : Settings) (rows : Nat) : Bool := s.parallel && s.minParallelRows ≤ rows

def same (s t : Settings) : Bool :=
  s.threshold.same t.threshold && s.parallel == t.parallel &&
    s.minParallelRows == t.minParallelRows

/-- Compression with the threshold narrowed to the elements of the grid; where rows are done in
parallel they finish as scheduled. -/
def compress {p : Precision} (s : Settings) (schedule : Schedule) (pattern : Pattern)
    (g : Grid p) : Attempt Pattern :=
  let threshold := Scalar.ofDouble s.threshold
  if s.runsParallel pattern.size then compressInOrder (schedule pattern.size) pattern g threshold
  else CowArrays.compress pattern g threshold

/-! ### Written forms -/

def boolText (b : Bool) : String := if b then "true" else "false"

def outline (s : Settings) : Outline :=
  .record "CompressionConfig"
    [("threshold", .atom s.threshold.inspect), ("parallel", .atom (boolText s.parallel)),
      ("min_parallel_rows", .atom (toString s.minParallelRows))] false

def compressorOutline (s : Settings) : Outline :=
  .record "PatternCompressor" [("config", s.outline)] false

/-- A scalar as JSON; what no JSON number can say is null. -/
def scalarToJson (x : Scalar .double) : Json.Value :=
  if x.isFinite then .number (x.write .json) else .null

def toJson (s : Settings) : Json.Value :=
  .object [("threshold", scalarToJson s.threshold), ("parallel", .bool s.parallel),
    ("min_parallel_rows", .index s.minParallelRows)]

/-- The fields found so far. -/
structure Found where
  threshold : Option (Scalar .double) := none
  parallel : Option Bool := none
  minParallelRows : Option Nat := none

def Found.complete (found : Found) : Settings where
  threshold := found.threshold.getD default.threshold
  parallel := found.parallel.getD default.parallel
  minParallelRows := found.minParallelRows.getD default.minParallelRows

open Json in
/-- One member of the object form: a field that must not have been found before, or one that is
passed over. -/
def readMember (found : Found) (key s : Octets) : Except Fault (Found × Octets) :=
  if key = word "threshold" then
    if found.threshold.isSome then .error .unsuitable
    else do
      let (x, rest) ← memberValue scalar s
      return ({ found with threshold := some x }, rest)
  else if key = word "parallel" then
    if found.parallel.isSome then .error .unsuitable
    else do
      let (b, rest) ← memberValue bool s
      return ({ found with parallel := some b }, rest)
  else if key = word "min_parallel_rows" then
    if found.minParallelRows.isSome then .error .unsuitable
    else do
      let (n, rest) ← memberValue index s
      return ({ found with minParallelRows := some n }, rest)
  else do return (found, ← skipMember s)

open Json in
/-- The items of the list form, in the order of the fields, up to where the list ends. -/
def readItems (s : Octets) : Except Fault (Found × Octets) := do
  match ← nextItem true s with
  | none => return ({}, s)
  | some s =>
    let (x, s) ← scalar s
    match ← nextItem false s with
    | none => return ({ threshold := some x }, s)
    | some s =>
      let (b, s) ← bool s
      match ← nextItem false s with
      | none => return ({ threshold := some x, parallel := some b }, s)
      | some s =>
        let (n, s) ← index s
        return (⟨some x, some b, some n⟩, s)

open Json in
def read (s : Octets) : Except Fault (Settings × Octets) :=
  match skipBlanks s with
  | [] => .error .truncated
  | b :: s =>
    if b = openList then do
      let (found, s) ← readItems s
      return (found.complete, ← endList s)
    else if b = openObject then do
      let (found, s) ← members readMember (s.length + 1) true {} s
      return (found.complete, s)
    else .error (refuse b s)

def ofJson (s : Octets) : Except Json.Fault Settings := Json.document read s

end Settings
end CowArrays
