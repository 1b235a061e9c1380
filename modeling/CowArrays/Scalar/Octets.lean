import CowArrays.Scalar.Format
import CowArrays.Failure

/-!
Scalars in memory: little-endian octets, and views of octets as scalars.
-/

namespace CowArrays

abbrev Octets := List UInt8

namespace Octets

/-- The number that the octets spell, least significant first. -/
def toNat : Octets → Nat
  | [] => 0
  | b :: rest => b.toNat + 256 * toNat rest

def ofNat : (count n : Nat) → Octets
  | 0, _ => []
  | count + 1, n => UInt8.ofNat n :: ofNat count (n / 256)

@[simp] theorem length_ofNat (count n : Nat) : (ofNat count n).length = count := by
  induction count generalizing n with
  | zero => rfl
  | succ count ih => simp [ofNat, ih]

end Octets

namespace Scalar

variable {p : Precision}

def octets (x : Scalar p) : Octets := Octets.ofNat p.byteSize x.bits

def ofOctets (bytes : Octets) : Scalar p := ofBits bytes.toNat

def encode (xs : List (Scalar p)) : Octets := xs.flatMap octets

def decode : (count : Nat) → Octets → List (Scalar p)
  | 0, _ => []
  | count + 1, bytes =>
    ofOctets (bytes.take p.byteSize) :: decode count (bytes.drop p.byteSize)

@[simp] theorem length_decode (count : Nat) (bytes : Octets) :
    (decode (p := p) count bytes).length = count := by
  induction count generalizing bytes with
  | zero => rfl
  | succ count ih => simp [decode, ih]

end Scalar

/-- Octets in memory from an offset on. The whole starts at an address that every element size
divides, so scalars are aligned where the offset is a multiple of their size. -/
structure Slice where
  whole : Octets
  offset : Nat
  inside : offset ≤ whole.length

namespace Slice

def octets (s : Slice) : Octets := s.whole.drop s.offset

def all (whole : Octets) : Slice := ⟨whole, 0, Nat.zero_le _⟩

end Slice

/-- How many scalars a slice is made up of. -/
def castCount (p : Precision) (s : Slice) : Attempt Nat :=
  let length := s.whole.length - s.offset
  if s.offset % p.byteSize = 0 ∧ length % p.byteSize = 0 then .ok (length / p.byteSize)
  else .error (.refused .misaligned)

def cast (p : Precision) (s : Slice) : Attempt (List (Scalar p)) := do
  let count ← castCount p s
  return Scalar.decode count s.octets

end CowArrays
