import CowArrays.Decimal.Literal

/-!
Indices in decimal: natural numbers below two to the 64th.
-/

namespace CowArrays

def indexLimit : Nat := 2 ^ (64 : Nat)

inductive IndexFault
  | empty
  | badDigit
  | tooLarge
  deriving DecidableEq

def IndexFault.message : IndexFault → String
  | empty => "cannot parse integer from empty string"
  | badDigit => "invalid digit found in string"
  | tooLarge => "number too large to fit in target type"

/-- Reads digits from the left; the first character that is no digit or goes past the limit
decides. -/
def readDigits (value : Nat) : List Char → Except IndexFault Nat
  | [] => .ok value
  | c :: rest =>
    if c.isDigit then
      let next := 10 * value + Decimal.digit c
      if next < indexLimit then readDigits next rest else .error .tooLarge
    else .error .badDigit

/-- Digits after an optional plus sign; a sign alone is a bad digit. -/
def readIndex : List Char → Except IndexFault Nat
  | [] => .error .empty
  | ['+'] => .error .badDigit
  | '+' :: rest => readDigits 0 rest
  | cs => readDigits 0 cs

end CowArrays
