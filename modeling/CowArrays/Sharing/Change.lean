import CowArrays.Sharing.Reading

/-!
Changes to a store, as the steps of a session ask for them. An edit is the one change that can fail,
and what it did before it failed stays done: its container has a cell of its own by then.
-/

namespace CowArrays

variable {p : Precision}

/-- What an edit leaves: the new payload of its container, and a pattern for another variable where
it makes one. -/
structure Edited (p : Precision) where
  payload : Payload p
  pattern : Option (Name × Pattern) := none

inductive Change (p : Precision)
  /-- A container on a fresh cell. -/
  | create (kind : Kind) (name : Name) (x : Payload p)
  /-- A reference of the caller on a fresh cell. -/
  | createShared (name : Name) (x : Payload p)
  /-- A mapped vector on a fresh cell, as a view. -/
  | view (name : Name) (origin : Origin) (offset count : Nat)
  /-- A container on the cell that another variable owns. -/
  | join (kind : Kind) (name source : Name)
  /-- A reference of the caller to the cell that another variable owns or observes. -/
  | hold (name source : Name)
  /-- An observer of the cell that another variable owns. -/
  | observe (name source : Name)
  /-- A new payload for a container, worked out from what there is to read once the container has a
  cell of its own. -/
  | edit (name : Name) (run : Reading p → Attempt (Edited p))
  | setPattern (name : Name) (pattern : Pattern)
  | lend (name : Name) (octets : Octets)
  | putFile (name : Name) (octets : Octets)
  | drop (name : Name)
  | rename (name target : Name)

namespace Store

def setPattern (s : Store p) (name : Name) (pattern : Pattern) : Store p :=
  s.bind name (.pattern pattern)

def settle (s : Store p) (name : Name) (e : Edited p) : Store p :=
  let s := s.modifyContent name fun _ => .ofPayload e.payload
  match e.pattern with
  | some (out, pattern) => s.setPattern out pattern
  | none => s

/-- The container first gets a cell of its own. Operands are read after that, from the cells they
are on. -/
def edit (s : Store p) (name : Name) (run : Reading p → Attempt (Edited p)) :
    Attempt Unit × Store p :=
  let s := s.makeOwn name
  match run s.reading with
  | .ok e => (.ok (), s.settle name e)
  | .error failure => (.error failure, s)

theorem edit_of_ok {s : Store p} {name : Name} {run : Reading p → Attempt (Edited p)} {e : Edited p}
    (h : run (s.makeOwn name).reading = .ok e) :
    s.edit name run = (.ok (), (s.makeOwn name).settle name e) := by
  simp only [edit, h]

theorem edit_of_error {s : Store p} {name : Name} {run : Reading p → Attempt (Edited p)}
    {failure : Failure} (h : run (s.makeOwn name).reading = .error failure) :
    s.edit name run = (.error failure, s.makeOwn name) := by
  simp only [edit, h]

def apply (s : Store p) : Change p → Attempt Unit × Store p
  | .create kind name x => (.ok (), s.allocate name (.container kind) (.ofPayload x))
  | .createShared name x => (.ok (), s.allocate name .shared (.ofPayload x))
  | .view name origin offset count =>
    (.ok (), match s.resolve origin with
      | some (source, s) =>
        s.allocate name (.container .mapped) (.mapped (.view ⟨source, offset, count⟩))
      | none => s)
  | .join kind name source => (.ok (), s.derive name source (Binding.toContainer? kind))
  | .hold name source => (.ok (), s.derive name source Binding.toShared?)
  | .observe name source => (.ok (), s.derive name source Binding.toObserver?)
  | .edit name run => s.edit name run
  | .setPattern name pattern => (.ok (), s.setPattern name pattern)
  | .lend name octets =>
    let (source, s) := s.addSource octets
    (.ok (), s.bind name (.buffer source))
  | .putFile name octets => (.ok (), s.putFile name octets)
  | .drop name => (.ok (), s.unbind name)
  | .rename name target => (.ok (), s.rename name target)

/-- Changes one after the other, up to the first that fails. -/
def applyAll (s : Store p) : List (Change p) → Attempt Unit × Store p
  | [] => (.ok (), s)
  | change :: rest =>
    match s.apply change with
    | (.ok (), s) => s.applyAll rest
    | (.error failure, s) => (.error failure, s)

end Store
end CowArrays
