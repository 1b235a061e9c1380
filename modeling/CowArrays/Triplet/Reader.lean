import CowArrays.Decimal.Literal
import CowArrays.Failure
import CowArrays.Scalar.Octets
import CowArrays.Text.Blank
import CowArrays.Text.Index

/-!
Triplet texts: lines of a row, a column and a value with commas between them. Lines are decoded and
read one after the other, so the first line that offends decides; blank lines are passed over but
counted. Where the text comes from may break off, which offends like the line that was begun there.
-/

namespace CowArrays

structure Triplet where
  row : Nat
  col : Nat
  value : Scalar .double
  deriving DecidableEq

/-- What is read from: octets, and the fault behind them where the stream breaks off. -/
structure Feed where
  octets : Octets
  fault : Option String := none

instance : Coe Octets Feed := ⟨fun octets => { octets }⟩

def wholeLines (octets : Octets) : Octets := (octets.reverse.dropWhile (· ≠ 0x0A)).reverse

/-- The octets of a feed that make up lines. A line that a fault cuts off is none. -/
def Feed.text (feed : Feed) : Octets :=
  match feed.fault with
  | none => feed.octets
  | some _ => wholeLines feed.octets

namespace Triplet

/-- The lines of a text; a text that ends with a line end has no line behind it. A carriage return
before a line end is left to the line, whose trimming drops it. -/
def lines : Octets → List Octets
  | [] => []
  | b :: s =>
    if b = 0x0A then [] :: lines s
    else match lines s with
      | [] => [[b]]
      | line :: rest => (b :: line) :: rest

/-- What is wrong with a trimmed line. -/
inductive LineFault
  | fields (line : List Char)
  | row (field : List Char) (fault : IndexFault)
  | column (field : List Char) (fault : IndexFault)
  | value (field : List Char)
  deriving DecidableEq

def LineFault.reason : LineFault → String
  | fields line => "expected `row,col,value`, found `" ++ .ofList line ++ "`"
  | row field fault => "invalid row `" ++ .ofList field ++ "`: " ++ fault.message
  | column field fault => "invalid column `" ++ .ofList field ++ "`: " ++ fault.message
  | value field =>
    "invalid value `" ++ .ofList field ++ "`: " ++
      (if field.isEmpty then "cannot parse float from empty string" else "invalid float literal")

def fields (line : List Char) : List (List Char) := (line.splitOn ',').map Text.trim

/-- Reads a trimmed line: the number of fields, then the row, the column and the value. -/
def ofLine (line : List Char) : Except LineFault Triplet :=
  match fields line with
  | [row, col, value] => do
    let i ← (readIndex row).mapError (.row row)
    let j ← (readIndex col).mapError (.column col)
    match Literal.read value with
    | some x => return ⟨i, j, .ofLiteral x⟩
    | none => throw (.value value)
  | _ => throw (.fields line)

def readLine (number : Nat) (line : Octets) : Attempt (Option Triplet) :=
  match String.fromUTF8? line.toByteArray with
  | none => .error (.stream .notText)
  | some text =>
    let cs := Text.trim text.toList
    if cs = [] then .ok none
    else match ofLine cs with
      | .ok t => .ok (some t)
      | .error fault => .error (.parse number fault.reason)

def readLines (number : Nat) : List Octets → Attempt (List Triplet)
  | [] => .ok []
  | line :: rest => do
    match ← readLine number line with
    | none => readLines (number + 1) rest
    | some t => return t :: (← readLines (number + 1) rest)

def readAll (text : Octets) : Attempt (List Triplet) := readLines 1 (lines text)

/-- Reads what a feed delivers. A fault is met behind the lines that are whole by then. -/
def readFeed (feed : Feed) : Attempt (List Triplet) := do
  let ts ← readAll feed.text
  match feed.fault with
  | none => return ts
  | some reason => throw (.stream (.rejected reason))

end Triplet
end CowArrays
