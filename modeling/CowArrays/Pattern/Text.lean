import CowArrays.Json.Document
import CowArrays.Json.Value
import CowArrays.Pattern.Basic
import CowArrays.Text.Outline

/-!
Written forms of patterns: a listing of the rows, an outline, and JSON, which is also read.
-/

namespace CowArrays.Pattern

def rowText (cs : Columns) (i : Nat) : String :=
  s!"  {i}:" ++ String.join (cs.toList.map fun j => s!" {j}") ++ "\n"

/-- A heading with the counts and a line for each row. -/
def display (p : Pattern) : String :=
  s!"pattern: {p.size} rows, {p.count} nonzeros\n" ++
    String.join (p.rows.zipIdx.map fun (cs, i) => rowText cs i)

def outline (p : Pattern) : Outline :=
  .record "SparsityPattern"
    [("rows", .list (p.rows.map fun cs => .set (cs.toList.map fun j => .atom (toString j))))] false

def toJson (p : Pattern) : Json.Value :=
  .object [("rows", .list (p.rows.map fun cs => .list (cs.toList.map .index)))]

open Json in
def readRows (s : Octets) : Except Fault (Pattern × Octets) := do
  let (rows, rest) ← Json.list (Json.list index) s
  return (ofLists rows, rest)

open Json in
/-- A member of the object form. Its rows must come once; all other members are passed over. -/
def readMember (found : Option Pattern) (key s : Octets) : Except Fault (Option Pattern × Octets) :=
  if key = word "rows" then
    if found.isSome then .error .unsuitable
    else do
      let (p, rest) ← memberValue readRows s
      return (some p, rest)
  else do return (found, ← skipMember s)

open Json in
/-- An object with the rows among its members, or a list of the rows alone. -/
def read (s : Octets) : Except Fault (Pattern × Octets) :=
  match skipBlanks s with
  | [] => .error .truncated
  | b :: s =>
    if b = openList then do
      match ← nextItem true s with
      | none => .error .unsuitable
      | some s =>
        let (p, s) ← readRows s
        return (p, ← endList s)
    else if b = openObject then do
      match ← members readMember (s.length + 1) true none s with
      | (some p, rest) => return (p, rest)
      | (none, _) => .error .unsuitable
    else .error (refuse b s)

def ofJson (s : Octets) : Except Json.Fault Pattern := Json.document read s

end CowArrays.Pattern
