import CowArrays.Line.Basic
import CowArrays.Scalar.Octets

/-!
Mapped vectors: either a view of octets that belong to someone else, or a line of their own. A view
is read entry by entry from its source; every change goes through an own line.
-/

namespace CowArrays

abbrev SourceId := Nat

/-- `count` scalars stored back to back, from `offset` octets behind the start. -/
def Line.ofOctets {p : Precision} (octets : Octets) (offset count : Nat) : Line p :=
  (Scalar.decode count (octets.drop offset)).toArray

def Line.ofAllOctets {p : Precision} (octets : Octets) : Line p :=
  .ofOctets octets 0 (octets.length / p.byteSize)

/-- `count` scalars from `offset` octets behind the start of a source. -/
structure Span where
  source : SourceId
  offset : Nat
  count : Nat
  deriving DecidableEq

inductive Mapped (p : Precision)
  | view (span : Span)
  | own (line : Line p)

namespace Mapped

variable {p : Precision}

def isView : Mapped p → Bool
  | view _ => true
  | own _ => false

def line (octets : SourceId → Octets) : Mapped p → Line p
  | view span => .ofOctets (octets span.source) span.offset span.count
  | own v => v

/-- `v + a * w`, by a loop over the entries of `w`. -/
def addScaled (v : Line p) (a : Scalar p) (w : Line p) : Attempt (Line p) :=
  (List.range w.size).foldlM (fun v i => do v.add i (a * (← w.entry i))) v

def same (v w : Line p) : Bool :=
  v.size == w.size && go v.toList w.toList
where
  go : List (Scalar p) → List (Scalar p) → Bool
    | [], [] => true
    | x :: xs, y :: ys => x.same y && go xs ys
    | _, _ => false

end Mapped
end CowArrays
