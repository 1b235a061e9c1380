import CowArrays.Pattern.Columns

/-!
Sparsity patterns: for each row of a matrix the set of columns that are structurally nonzero. The
number of rows is fixed when a pattern is made.
-/

namespace CowArrays

structure Pattern where
  rows : List Columns
  deriving DecidableEq

namespace Pattern

def empty (rows : Nat) : Pattern := ⟨List.replicate rows .empty⟩

def full (rows cols : Nat) : Pattern := ⟨List.replicate rows (.below cols)⟩

/-- Rows given as lists of columns in any order. -/
def ofLists (rows : List (List Nat)) : Pattern := ⟨rows.map .ofList⟩

def size (p : Pattern) : Nat := p.rows.length

def count (p : Pattern) : Nat := p.rows.foldr (fun cs n => cs.size + n) 0

def row? (p : Pattern) (i : Nat) : Option Columns := p.rows[i]?

def row (p : Pattern) (i : Nat) : Attempt Columns :=
  match p.rows[i]? with
  | some cs => .ok cs
  | none => .error (.outOfRange (.pattern i p.size))

def contains (p : Pattern) (i j : Nat) : Bool :=
  match p.rows[i]? with
  | some cs => cs.contains j
  | none => false

def setRow (p : Pattern) (i : Nat) (cs : Columns) : Pattern := ⟨p.rows.set i cs⟩

/-- Marks a position, and says whether it was not marked before. -/
def insert (p : Pattern) (i j : Nat) : Attempt (Pattern × Bool) := do
  let cs ← p.row i
  return (p.setRow i (cs.insert j), !cs.contains j)

/-- Unmarks a position, and says whether it was marked before. -/
def erase (p : Pattern) (i j : Nat) : Attempt (Pattern × Bool) := do
  let cs ← p.row i
  return (p.setRow i (cs.erase j), cs.contains j)

def insertAll (p : Pattern) (i : Nat) (js : List Nat) : Attempt Pattern := do
  let cs ← p.row i
  return p.setRow i (cs.insertAll js)

def positions (p : Pattern) : List (Nat × Nat) :=
  p.rows.zipIdx.flatMap fun (cs, i) => cs.toList.map fun j => (i, j)

theorem length_positions (p : Pattern) : p.positions.length = p.count := by
  have h (rows : List Columns) (k : Nat) :
      ((rows.zipIdx k).flatMap fun (cs, i) => cs.toList.map fun j => (i, j)).length =
        rows.foldr (fun cs n => cs.size + n) 0 := by
    induction rows generalizing k with
    | nil => rfl
    | cons cs rows ih => simp [ih, Columns.size]
  exact h p.rows 0

end Pattern
end CowArrays
