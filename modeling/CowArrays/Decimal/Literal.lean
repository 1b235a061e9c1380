import CowArrays.Decimal.Digits
import CowArrays.Scalar.Arithmetic

/-!
Decimal literals of scalars: their grammar and the scalar nearest to one.
-/

namespace CowArrays

/-- What a literal says, before it is rounded to a format. -/
inductive Literal
  | number (negative : Bool) (magnitude : Decimal)
  | infinite (negative : Bool)
  | nan (negative : Bool)
  deriving DecidableEq

namespace Decimal

def digit (c : Char) : Nat := c.toNat - '0'.toNat

def ofDigits (cs : List Char) : Nat := cs.foldl (fun n c => 10 * n + digit c) 0

/-- Nothing at all, or an exponent: a mark, an optional sign and at least one digit. -/
def readExponent : List Char → Option Int
  | [] => some 0
  | c :: rest =>
    if c = 'e' ∨ c = 'E' then
      let (sign, digits) := match rest with
        | '+' :: r => ((1 : Int), r)
        | '-' :: r => (-1, r)
        | r => (1, r)
      if digits ≠ [] ∧ digits.all Char.isDigit then some (sign * ofDigits digits) else none
    else none

/-- Digits with an optional point, at least one digit in all, and an optional exponent. -/
def read (cs : List Char) : Option Decimal :=
  let whole := cs.takeWhile Char.isDigit
  let (fraction, rest) := match cs.dropWhile Char.isDigit with
    | '.' :: r => (r.takeWhile Char.isDigit, r.dropWhile Char.isDigit)
    | r => ([], r)
  if whole = [] ∧ fraction = [] then none
  else (readExponent rest).map fun e => ⟨ofDigits (whole ++ fraction), e - fraction.length⟩

/-- Powers of ten of the leading digit beyond which every format overflows or yields zero. -/
def reach : Int := 400

/-- Code of the scalar nearest to the number. Beyond the reach of all formats the answer needs no
powers of ten, so huge exponents cost nothing. -/
def toCode (p : Precision) (d : Decimal) : Nat :=
  if d.digits = 0 ∨ d.leading < -reach then 0
  else if reach < d.leading then p.infinity
  else let q := unitsOf p d.digits d.exponent; p.nearest q.1 q.2

theorem toCode_le (p : Precision) (d : Decimal) : d.toCode p ≤ p.infinity := by
  unfold toCode
  split
  · exact Nat.zero_le _
  · split
    · exact Nat.le_refl _
    · exact p.nearest_le _ _

end Decimal

namespace Literal

/-- An optional sign, then a number or one of the words for infinity and NaN in any case. -/
def read (cs : List Char) : Option Literal :=
  let (negative, body) := match cs with
    | '+' :: r => (false, r)
    | '-' :: r => (true, r)
    | r => (false, r)
  match Decimal.read body with
  | some d => some (number negative d)
  | none =>
    let word := String.ofList (body.map Char.toLower)
    if word = "inf" ∨ word = "infinity" then some (infinite negative)
    else if word = "nan" then some (nan negative)
    else none

end Literal

namespace Scalar

def ofLiteral {p : Precision} : Literal → Scalar p
  | .number negative d => ofCode negative (d.toCode p) (d.toCode_le p)
  | .infinite negative => infinite negative
  | .nan negative => nan negative

/-- An element given as text: read as a 64-bit scalar, then narrowed to the format. -/
def ofText? {p : Precision} (s : String) : Option (Scalar p) :=
  (Literal.read s.toList).map fun l => ofDouble (ofLiteral l)

end Scalar
end CowArrays
