/-!
Scalars of the two binary interchange formats as exact data. A scalar is a sign and a *code*, the
integer that the remaining bits spell. Codes grow with the magnitude they stand for, so comparing
magnitudes is comparing codes, and every finite magnitude is a whole number of *units*, the unit
being the least positive scalar of the format.
-/

namespace CowArrays

/-- Powers of natural numbers are core's, also where a library brings powers in monoids. -/
instance (priority := 2000) powNat : Pow Nat Nat := instPowNat

inductive Precision
  | single
  | double
  deriving DecidableEq, Inhabited

namespace Precision

/-- Stored bits of the significand; one more is implied for normal scalars. -/
def fractionBits : Precision → Nat
  | single => 23
  | double => 52

def exponentBits : Precision → Nat
  | single => 8
  | double => 11

def byteSize : Precision → Nat
  | single => 4
  | double => 8

def bitSize (p : Precision) : Nat := 8 * p.byteSize

/-- The unit is two to the power of minus this. -/
def unitExponent : Precision → Nat
  | single => 149
  | double => 1074

def one (p : Precision) : Nat := 2 ^ p.unitExponent

/-- The code of infinity; every larger code is a NaN. -/
def infinity (p : Precision) : Nat := (2 ^ p.exponentBits - 1) * 2 ^ p.fractionBits

/-- The code of the quiet NaN that arithmetic yields. -/
def quietNaN (p : Precision) : Nat := p.infinity + 2 ^ (p.fractionBits - 1)

/-- Magnitude of a code in units. At and above the code of infinity it goes on as if the exponent
had no end, which makes the neighbour above of the largest finite scalar the next power of two. -/
def units (p : Precision) (code : Nat) : Nat :=
  if code < 2 ^ p.fractionBits then code
  else (2 ^ p.fractionBits + code % 2 ^ p.fractionBits) * 2 ^ (code / 2 ^ p.fractionBits - 1)

theorem infinity_lt (p : Precision) : p.infinity < 2 ^ (p.bitSize - 1) := by
  cases p <;> decide

theorem quietNaN_lt (p : Precision) : p.quietNaN < 2 ^ (p.bitSize - 1) := by
  cases p <;> decide

def name : Precision → String
  | single => "f32"
  | double => "f64"

def tag : Precision → String
  | single => "F32"
  | double => "F64"

def number : Precision → Nat
  | single => 0
  | double => 1

end Precision

/-- A scalar: its sign and the code of its magnitude. Two scalars are equal when all bits are. -/
structure Scalar (p : Precision) where
  negative : Bool
  code : Nat
  code_lt : code < 2 ^ (p.bitSize - 1)
  deriving DecidableEq

namespace Scalar

variable {p : Precision}

def ofCode (negative : Bool) (code : Nat) (h : code ≤ p.infinity) : Scalar p :=
  ⟨negative, code, Nat.lt_of_le_of_lt h p.infinity_lt⟩

def signedZero (negative : Bool) : Scalar p := ofCode negative 0 (Nat.zero_le _)

def zero : Scalar p := signedZero false

instance : Inhabited (Scalar p) := ⟨zero⟩

def infinite (negative : Bool) : Scalar p := ofCode negative p.infinity (Nat.le_refl _)

def nan (negative : Bool) : Scalar p := ⟨negative, p.quietNaN, p.quietNaN_lt⟩

def isNaN (x : Scalar p) : Bool := p.infinity < x.code

def isInfinite (x : Scalar p) : Bool := x.code == p.infinity

def isFinite (x : Scalar p) : Bool := x.code < p.infinity

def isZero (x : Scalar p) : Bool := x.code == 0

/-- Exact value of a finite scalar in units. -/
def value (x : Scalar p) : Int :=
  if x.negative then -(p.units x.code : Int) else p.units x.code

/-- All bits as one number, the sign on top. -/
def bits (x : Scalar p) : Nat :=
  (if x.negative then 2 ^ (p.bitSize - 1) else 0) + x.code

def ofBits (n : Nat) : Scalar p where
  negative := n / 2 ^ (p.bitSize - 1) % 2 == 1
  code := n % 2 ^ (p.bitSize - 1)
  code_lt := Nat.mod_lt _ (Nat.two_pow_pos _)

theorem bits_lt (x : Scalar p) : x.bits < 2 ^ p.bitSize := by
  have h := x.code_lt
  have hp : 2 ^ p.bitSize = 2 * 2 ^ (p.bitSize - 1) := by cases p <;> decide
  unfold bits
  split <;> omega

theorem ofBits_bits (x : Scalar p) : ofBits x.bits = x := by
  obtain ⟨s, c, h⟩ := x
  have hpos : 0 < 2 ^ (p.bitSize - 1) := Nat.two_pow_pos _
  cases s <;> simp [ofBits, bits, Nat.mod_eq_of_lt h, Nat.div_eq_of_lt h, Nat.add_div hpos,
    Nat.div_self hpos, Nat.not_le.2 h]

end Scalar
end CowArrays
