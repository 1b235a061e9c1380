import CowArrays.Session.Step

/-!
Snapshots: all that can be seen of the live variables of a store.
-/

namespace CowArrays

/-- How a container shares its cell: whether it is the only reference to it, and the first name
among the containers of its kind on the cell. -/
structure Sharing where
  unique : Bool
  group : Name

inductive Shown (p : Precision)
  | vector (v : Line p) (sharing : Sharing)
  | mapped (v : Line p) (isView : Bool) (sharing : Sharing)
  | matrix (g : Grid p) (sharing : Sharing)
  | handle (x : Payload p) (owners : Nat) (sharing : Sharing)
  | shared (scalars : List (Scalar p)) (owners : Nat)
  | observer (owners : Nat)
  | pattern (pattern : Pattern)
  | buffer (v : Line p)

namespace Store

variable {p : Precision}

def isContainerOn (kind : Kind) (c : CellId) : Binding p → Bool
  | .container k d => k == kind && d == c
  | _ => false

/-- The least name, in the order of code points, of the containers of a kind on a cell. -/
def group (s : Store p) (kind : Kind) (c : CellId) (name : Name) : Name :=
  s.bindings.foldl (fun least b => if isContainerOn kind c b.2 && b.1 < least then b.1 else least)
    name

def sharing (s : Store p) (kind : Kind) (c : CellId) (name : Name) : Sharing :=
  ⟨s.isUnique c, s.group kind c name⟩

def shown (s : Store p) (name : Name) : Binding p → Option (Shown p)
  | .container kind c => (s.payload? c).bind fun x =>
    let sharing := s.sharing kind c name
    match kind, x with
    | .vector, .vector v => some (.vector v sharing)
    | .mapped, .mapped v isView => some (.mapped v isView sharing)
    | .matrix, .matrix g => some (.matrix g sharing)
    | .handle, x => some (.handle x (s.strong c) sharing)
    | _, _ => none
  | .shared c => (s.payload? c).map fun x => .shared x.scalars (s.strong c)
  | .observer c => some (.observer (s.strong c))
  | .pattern pattern => some (.pattern pattern)
  | .buffer source => some (.buffer (s.sourceLine source))

def snapshot (s : Store p) : List (Name × Shown p) :=
  s.bindings.filterMap fun (name, b) => (s.shown name b).map fun x => (name, x)

end Store
end CowArrays
