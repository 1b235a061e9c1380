import CowArrays.Json.Document
import CowArrays.Json.Value

/-!
The element formats as JSON: their tags as strings, or as the only key of an object that holds null.
-/

namespace CowArrays.Precision

open Json

def toJson (p : Precision) : Value := .string p.tag

def ofTag (tag : Octets) : Except Fault Precision :=
  if tag = word single.tag then .ok single
  else if tag = word double.tag then .ok double
  else .error .unsuitable

/-- From behind the opening brace of an object: a tag as its only key, and null. -/
def readTagged (s : Octets) : Except Fault (Precision × Octets) := do
  match ← nextKey true s with
  | (none, _) => throw .malformed
  | (some tag, s) =>
    let p ← ofTag tag
    let s ← null (← expectColon s)
    match skipBlanks s with
    | [] => throw .truncated
    | b :: s => if b = closeObject then return (p, s) else throw .malformed

def read (s : Octets) : Except Fault (Precision × Octets) :=
  match skipBlanks s with
  | [] => .error .truncated
  | b :: r =>
    if b = openObject then readTagged r
    else if b = quote then do
      let (tag, s) ← string r
      return (← ofTag tag, s)
    else .error .malformed

def ofJson (s : Octets) : Except Fault Precision := document read s

end CowArrays.Precision
