import CowArrays.Line.Mapped
import CowArrays.Pattern.Basic
import CowArrays.Sharing.Payload

/-!
The store: named variables that own storage cells, alone or together. A cell is owned by every
container and every shared reference bound to it; observers are bound to a cell without owning it.
Each cell counts its owners and observers. The counts are kept up when a reference is made and when
one is given up, and they are all that anyone asks about sharing.

The one rule of copy-on-write is in `Store.makeUnique`: a container stays on its cell only when the
counts say that no other reference is on it, and moves to a fresh cell otherwise.
-/

namespace CowArrays

abbrev Name := String

abbrev CellId := Nat

inductive Content (p : Precision)
  | vector (v : Line p)
  | mapped (m : Mapped p)
  | matrix (g : Grid p)
  | list (v : Line p)

namespace Content

variable {p : Precision}

def ofPayload : Payload p → Content p
  | .vector v => .vector v
  | .mapped v _ => .mapped (.own v)
  | .matrix g => .matrix g
  | .list v => .list v

/-- The content with a view turned into an own line. -/
def owned (octets : SourceId → Octets) : Content p → Content p
  | .mapped m => .mapped (.own (m.line octets))
  | x => x

end Content

/-- A cell. One without owners is dead, and its content is not looked at any more. -/
structure Cell (p : Precision) where
  content : Content p
  owners : Nat
  observers : Nat

inductive Binding (p : Precision)
  /-- A container, which owns its cell. Containers of different kinds can be on one cell. -/
  | container (kind : Kind) (cell : CellId)
  /-- A reference held by the caller, which owns its cell, too. -/
  | shared (cell : CellId)
  /-- A reference that does not keep its cell alive. -/
  | observer (cell : CellId)
  | pattern (pattern : Pattern)
  /-- Memory of the caller, which mapped vectors view and nobody writes. -/
  | buffer (source : SourceId)

structure Store (p : Precision) where
  /-- All cells ever made. -/
  cells : Array (Cell p) := #[]
  /-- Live variables, each name once. -/
  bindings : List (Name × Binding p) := []
  /-- Octets that can be viewed. They never change. -/
  sources : Array Octets := #[]
  /-- Files, each name once, and the source that holds their present contents. -/
  files : List (Name × SourceId) := []

def Binding.owned? {p : Precision} : Binding p → Option CellId
  | container _ c => some c
  | shared c => some c
  | _ => none

def Binding.observed? {p : Precision} : Binding p → Option CellId
  | observer c => some c
  | _ => none

/-- The cell that a binding is on, as an owner or as an observer. -/
def Binding.cell? {p : Precision} (b : Binding p) : Option CellId := b.owned?.or b.observed?

def Binding.toContainer? {p : Precision} (kind : Kind) (b : Binding p) : Option (Binding p) :=
  b.owned?.map (.container kind)

/-- A reference of the caller to the cell that a binding owns or observes. -/
def Binding.toShared? {p : Precision} (b : Binding p) : Option (Binding p) := b.cell?.map .shared

def Binding.toObserver? {p : Precision} (b : Binding p) : Option (Binding p) :=
  b.owned?.map .observer

/-- Where the octets under a view come from. -/
inductive Origin
  | buffer (name : Name)
  | file (name : Name)
  | octets (octets : Octets)

namespace Store

variable {p : Precision}

def find? (s : Store p) (name : Name) : Option (Binding p) := s.bindings.lookup name

/-! ### Counts -/

def strong (s : Store p) (c : CellId) : Nat := (s.cells[c]?).elim 0 Cell.owners

def weak (s : Store p) (c : CellId) : Nat := (s.cells[c]?).elim 0 Cell.observers

/-- Whether one reference owns the cell and no other is on it. -/
def isUnique (s : Store p) (c : CellId) : Bool := s.strong c == 1 && s.weak c == 0

def recount (s : Store p) (f : Nat → Nat) : Binding p → Store p
  | .container _ c | .shared c =>
    { s with cells := s.cells.modify c fun x => { x with owners := f x.owners } }
  | .observer c => { s with cells := s.cells.modify c fun x => { x with observers := f x.observers } }
  | _ => s

/-- Counts a reference that is made. -/
def retain (s : Store p) (b : Binding p) : Store p := s.recount (· + 1) b

/-- Counts off a reference that is given up. -/
def release (s : Store p) (b : Binding p) : Store p := s.recount (· - 1) b

/-! ### Variables -/

def unbind (s : Store p) (name : Name) : Store p :=
  let s := match s.find? name with
    | some b => s.release b
    | none => s
  { s with bindings := s.bindings.filter (·.1 != name) }

/-- Binds a name to a reference that is already counted, in place of what it was bound to. -/
def attach (s : Store p) (name : Name) (b : Binding p) : Store p :=
  let s := s.unbind name
  { s with bindings := (name, b) :: s.bindings }

def bind (s : Store p) (name : Name) (b : Binding p) : Store p := (s.retain b).attach name b

/-- Binds a name to a new reference that is made of the binding of a variable, if it can be. -/
def derive (s : Store p) (name source : Name) (f : Binding p → Option (Binding p)) : Store p :=
  match (s.find? source).bind f with
  | some b => s.bind name b
  | none => s

/-- Binds another name to the reference of a variable, which goes. -/
def rename (s : Store p) (name target : Name) : Store p :=
  match s.find? name with
  | some b => ((s.retain b).unbind name).attach target b
  | none => s

def allocate (s : Store p) (name : Name) (binding : CellId → Binding p) (content : Content p) :
    Store p :=
  { s with cells := s.cells.push ⟨content, 0, 0⟩ }.bind name (binding s.cells.size)

/-! ### Writing -/

def modifyContent (s : Store p) (name : Name) (f : Content p → Content p) : Store p :=
  match s.find? name with
  | some (.container _ c) =>
    { s with cells := s.cells.modify c fun x => { x with content := f x.content } }
  | _ => s

/-- Gives a container a cell of its own. It keeps its cell when it is the only reference to it, and
moves to a fresh cell with the same content otherwise. -/
def makeUnique (s : Store p) (name : Name) : Store p :=
  match s.find? name with
  | some (.container kind c) =>
    if s.isUnique c then s
    else match s.cells[c]? with
      | some x => s.allocate name (.container kind) x.content
      | none => s
  | _ => s

/-! ### Sources -/

def addSource (s : Store p) (octets : Octets) : SourceId × Store p :=
  (s.sources.size, { s with sources := s.sources.push octets })

def octets (s : Store p) (source : SourceId) : Octets := (s.sources[source]?).getD []

/-- Makes the file of a name anew. Views of its earlier contents keep them. -/
def putFile (s : Store p) (name : Name) (octets : Octets) : Store p :=
  let (source, s) := s.addSource octets
  { s with files := (name, source) :: s.files.filter (·.1 != name) }

/-- The source of an origin; octets given in place become a source of their own. -/
def resolve (s : Store p) : Origin → Option (SourceId × Store p)
  | .buffer name =>
    match s.find? name with
    | some (.buffer source) => some (source, s)
    | _ => none
  | .file name => (s.files.lookup name).map fun source => (source, s)
  | .octets octets => some (s.addSource octets)

/-- Gives a container a cell of its own, and a mapped one a line of its own. -/
def makeOwn (s : Store p) (name : Name) : Store p :=
  let s := s.makeUnique name
  s.modifyContent name (Content.owned s.octets)

end Store
end CowArrays
