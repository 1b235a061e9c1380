import CowArrays.Sharing.Change

/-!
What a step of a session comes to: an answer and changes to the store. All that a step checks, it
checks on values before anything changes; a step that is refused has no changes at all.
-/

namespace CowArrays

inductive Answer (p : Precision)
  | done
  | absent
  | bool (b : Bool)
  | count (n : Nat)
  | counts (ns : List Nat)
  | pairs (ns : List (Nat × Nat))
  | scalar (x : Scalar p)
  | scalars (xs : List (Scalar p))
  | entries (xs : List (Nat × Nat × Scalar p))
  | text (s : String)
  | octets (octets : Octets)

structure Plan (p : Precision) where
  answer : Answer p
  changes : List (Change p)

namespace Plan

variable {p : Precision}

def tell (answer : Answer p) : Plan p := ⟨answer, []⟩

def change (changes : List (Change p)) : Plan p := ⟨.done, changes⟩

def edit (name : Name) (run : Reading p → Attempt (Payload p)) : Plan p :=
  .change [.edit name fun r => (run r).map fun x => ⟨x, none⟩]

end Plan

def Answer.scalar? {p : Precision} : Option (Scalar p) → Answer p
  | some x => .scalar x
  | none => .absent

end CowArrays
