import CowArrays.Scalar.Rounding

/-!
Decimal digits of a positive quantity: the fewest that read back to the same scalar, or a fixed
number of them. Both choose among the points of a decimal grid by exact comparisons.
-/

namespace CowArrays

/-- The number `digits * 10 ^ exponent`. -/
structure Decimal where
  digits : Nat
  exponent : Int
  deriving DecidableEq

namespace Decimal

/-- Number of decimal digits; zero has none. -/
def length (n : Nat) : Nat := if h : n = 0 then 0 else length (n / 10) + 1
termination_by n
decreasing_by omega

/-- Position of the leading digit: its power of ten. -/
def leading (d : Decimal) : Int := d.exponent + length d.digits - 1

def text (d : Decimal) : List Char := Nat.toDigits 10 d.digits

/-- Drops zeros at the end of nonzero digits, at most `fuel` of them. -/
def trimZeros : (fuel : Nat) → Decimal → Decimal
  | 0, d => d
  | fuel + 1, d =>
    if d.digits ≠ 0 ∧ d.digits % 10 = 0 then trimZeros fuel ⟨d.digits / 10, d.exponent + 1⟩ else d

/-- The power of ten at or just below `num / den`, both positive. -/
def magnitude (num den : Nat) : Int :=
  if den ≤ num then length (num / den) - 1
  else -(length ((den + num - 1) / num - 1) : Int)

/-- `num / den` in multiples of `10 ^ e`, as numerator and denominator. -/
def onGrid (num den : Nat) (e : Int) : Nat × Nat :=
  if 0 ≤ e then (num, den * 10 ^ e.toNat) else (num * 10 ^ (-e).toNat, den)

/-- Which of two equally near neighbours is taken. -/
inductive Tie
  | up
  | even
  deriving DecidableEq

/-- What reads back to the scalar of a code: twice the ends of its interval in units, and whether
the ends belong to it. A half goes to the even code, so they do exactly when the code is even. -/
structure Interval where
  low : Nat
  high : Nat
  closed : Bool

def Interval.ofCode (p : Precision) (code : Nat) : Interval where
  low := p.units (code - 1) + p.units code
  high := p.units code + p.units (code + 1)
  closed := code % 2 == 0

def Interval.holds (i : Interval) (num den : Nat) : Bool :=
  if i.closed then i.low * den ≤ 2 * num && 2 * num ≤ i.high * den
  else i.low * den < 2 * num && 2 * num < i.high * den

def unitsOf (p : Precision) (d : Nat) (e : Int) : Nat × Nat :=
  if 0 ≤ e then (d * 10 ^ e.toNat * p.one, 1) else (d * p.one, 10 ^ (-e).toNat)

/-- The neighbour of the scalar on the grid of `10 ^ e` that reads back to it, if one does. -/
def candidate (p : Precision) (tie : Tie) (code : Nat) (e : Int) : Option Nat :=
  let interval := Interval.ofCode p code
  let (num, den) := onGrid (p.units code) p.one e
  let below := num / den
  let fits (d : Nat) : Bool := let q := unitsOf p d e; interval.holds q.1 q.2
  match fits below, fits (below + 1) with
  | true, false => some below
  | false, true => some (below + 1)
  | false, false => none
  | true, true =>
    let twice := 2 * (num % den)
    if twice < den then some below
    else if den < twice then some (below + 1)
    else match tie with
      | .up => some (below + 1)
      | .even => some (below + below % 2)

/-- Tries grids from coarse to fine, the first of them `10 ^ e`. -/
def search (p : Precision) (tie : Tie) (code : Nat) : (fuel : Nat) → (e : Int) → Decimal
  | 0, e => ⟨let q := onGrid (p.units code) p.one e; q.1 / q.2, e⟩
  | fuel + 1, e =>
    match candidate p tie code e with
    | some d => trimZeros 20 ⟨d, e⟩
    | none => search p tie code fuel (e - 1)

/-- The fewest digits that read back to the scalar of a positive code, and of those the nearest. -/
def shortest (p : Precision) (tie : Tie) (code : Nat) : Decimal :=
  search p tie code 17 (magnitude (p.units code) p.one)

/-- `count` digits of `num / den`, both positive, rounded half to even. -/
def rounded (count num den : Nat) : Decimal :=
  let e := magnitude num den - (count - 1 : Nat)
  let (n, d) := onGrid num den e
  let digits := roundHalfEven n d
  if digits = 10 ^ count then ⟨10 ^ (count - 1), e + 1⟩ else ⟨digits, e⟩

end Decimal
end CowArrays
