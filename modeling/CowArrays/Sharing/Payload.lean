import CowArrays.Grid.Basic

/-!
Payloads: what containers hold, as values. Steps speak of payloads only; where they are stored, and
with whom, is the business of the store.
-/

namespace CowArrays

inductive Kind
  | vector
  | mapped
  | matrix
  | handle
  deriving DecidableEq

inductive Payload (p : Precision)
  | vector (v : Line p)
  /-- A mapped vector: its entries, and whether they still lie in memory of someone else. -/
  | mapped (v : Line p) (isView : Bool)
  | matrix (g : Grid p)
  /-- A growable list, which only handles are over. -/
  | list (v : Line p)
  deriving DecidableEq

variable {p : Precision}

/-- Whether a container of a kind can be over a payload. A handle can be over any. -/
def Kind.admits : Kind → Payload p → Bool
  | vector, .vector _ => true
  | mapped, .mapped _ _ => true
  | matrix, .matrix _ => true
  | handle, _ => true
  | _, _ => false

namespace Payload

/-- All scalars, those of a matrix row by row. -/
def scalars : Payload p → List (Scalar p)
  | vector v => v.toList
  | mapped v _ => v.toList
  | matrix g => g.entries.toList
  | list v => v.toList

end Payload
end CowArrays
