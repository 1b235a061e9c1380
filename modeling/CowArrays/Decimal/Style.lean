import CowArrays.Decimal.Digits
import CowArrays.Scalar.Arithmetic

/-!
Written forms of scalars. A style says where positional notation ends and how the rest looks; the
three styles in use are records of one type, and the writer of twelve places is beside them.
-/

namespace CowArrays

structure NumberStyle where
  /-- Which of two equally near shortest texts is taken. -/
  tie : Decimal.Tie
  /-- Powers of ten of the leading digit that are written positionally: from the first up to, and
  without, the second. Nothing here means that all are. -/
  positional : Option (Int × Int)
  /-- Integers written positionally end in a point and a zero. -/
  keepsPoint : Bool
  /-- Positive exponents carry a plus sign. -/
  plusSign : Bool

namespace NumberStyle

/-- For readers: positional always, integers bare. -/
def plain : NumberStyle := ⟨.up, none, false, false⟩

/-- For inspection: positional from a ten-thousandth up to ten to the sixteenth. -/
def inspected : NumberStyle := ⟨.up, some (-4, 16), true, false⟩

/-- For JSON numbers: positional from a hundred-thousandth up to ten to the sixteenth. -/
def json : NumberStyle := ⟨.even, some (-5, 16), true, true⟩

def isPositional (s : NumberStyle) (leading : Int) : Bool :=
  match s.positional with
  | none => true
  | some (least, bound) => least ≤ leading && leading < bound

def writePositional (s : NumberStyle) (d : Decimal) : String :=
  let digits := d.text
  let zeros (n : Int) : List Char := List.replicate n.toNat '0'
  let point := d.leading + 1
  if 0 ≤ d.exponent then
    .ofList (digits ++ zeros d.exponent) ++ (if s.keepsPoint then ".0" else "")
  else if 0 < point then
    .ofList (digits.take point.toNat ++ '.' :: digits.drop point.toNat)
  else .ofList ('0' :: '.' :: zeros (-point) ++ digits)

def writeScientific (plusSign : Bool) (d : Decimal) : String :=
  let digits := d.text
  let rest := digits.drop 1
  let point := if rest.isEmpty then rest else '.' :: rest
  let sign := if plusSign && 0 ≤ d.leading then "+" else ""
  .ofList (digits.take 1 ++ point) ++ "e" ++ sign ++ toString d.leading

def writeDecimal (s : NumberStyle) (d : Decimal) : String :=
  if s.isPositional d.leading then s.writePositional d else writeScientific s.plusSign d

end NumberStyle

namespace Scalar

variable {p : Precision}

def signText (x : Scalar p) : String := if x.negative then "-" else ""

/-- Text of a scalar, with `finite` for what is neither a NaN nor infinite, the sign apart. -/
def writeWith (finite : Scalar p → String) (x : Scalar p) : String :=
  if x.isNaN then "NaN"
  else if x.isInfinite then x.signText ++ "inf"
  else x.signText ++ finite x

def write (style : NumberStyle) (x : Scalar p) : String :=
  x.writeWith fun x =>
    if x.isZero then style.writeDecimal ⟨0, 0⟩
    else style.writeDecimal (Decimal.shortest p style.tie x.code)

def display (x : Scalar p) : String := x.write .plain

/-- The shortest text that shows a point or an exponent. -/
def inspect (x : Scalar p) : String := x.write .inspected

/-- One digit before the point and twelve behind it, the exact value rounded half to even. -/
def scientific (x : Scalar p) : String :=
  x.writeWith fun x =>
    if x.isZero then "0.000000000000e0"
    else NumberStyle.writeScientific false (Decimal.rounded 13 (p.units x.code) p.one)

end Scalar
end CowArrays
