import CowArrays.Scalar.Octets
import CowArrays.Scalar.Arithmetic

/-!
The tokens of JSON, read from the front of a text in octets. A reader returns what it read and the
rest of the text; the first fault decides, and its kind says whether the text is malformed, is well
formed but of the wrong type, or ends too early.
-/

namespace CowArrays.Json

abbrev Reads (α : Type) := Except Fault (α × Octets)

def isBlank (b : UInt8) : Bool := b == 0x20 || b == 0x0A || b == 0x0D || b == 0x09

def skipBlanks (s : Octets) : Octets := s.dropWhile isBlank

def quote : UInt8 := 0x22
def backslash : UInt8 := 0x5C
def comma : UInt8 := 0x2C
def colon : UInt8 := 0x3A
def minus : UInt8 := 0x2D
def plus : UInt8 := 0x2B
def point : UInt8 := 0x2E
def openList : UInt8 := 0x5B
def closeList : UInt8 := 0x5D
def openObject : UInt8 := 0x7B
def closeObject : UInt8 := 0x7D

def isDigit (b : UInt8) : Bool := 0x30 ≤ b && b ≤ 0x39

def digit (b : UInt8) : Nat := b.toNat - 0x30

def isExponentMark (b : UInt8) : Bool := b == 0x65 || b == 0x45

def word (s : String) : Octets := s.toList.map fun c => UInt8.ofNat c.toNat

def expectWord : (expected : Octets) → Octets → Except Fault Octets
  | [], s => .ok s
  | _ :: _, [] => .error .truncated
  | e :: expected, b :: s => if b = e then expectWord expected s else .error .malformed

/-! ### Strings, from behind their opening quote -/

def hexDigit (b : UInt8) : Option Nat :=
  if isDigit b then some (digit b)
  else if 0x61 ≤ b ∧ b ≤ 0x66 then some (b.toNat - 0x57)
  else if 0x41 ≤ b ∧ b ≤ 0x46 then some (b.toNat - 0x37)
  else none

def hex (a b c d : UInt8) : Option Nat := do
  return (((← hexDigit a) * 16 + (← hexDigit b)) * 16 + (← hexDigit c)) * 16 + (← hexDigit d)

def escaped (b : UInt8) : Option UInt8 :=
  if b = quote ∨ b = backslash ∨ b = 0x2F then some b
  else if b = 0x62 then some 0x08
  else if b = 0x66 then some 0x0C
  else if b = 0x6E then some 0x0A
  else if b = 0x72 then some 0x0D
  else if b = 0x74 then some 0x09
  else none

def isLead (unit : Nat) : Bool := 0xD800 ≤ unit && unit ≤ 0xDBFF

def isTrail (unit : Nat) : Bool := 0xDC00 ≤ unit && unit ≤ 0xDFFF

def codePoint (n : Nat) : Octets := String.utf8EncodeChar (Char.ofNat n)

def joinUnits (lead trail : Nat) : Nat := 0x10000 + (lead - 0xD800) * 0x400 + (trail - 0xDC00)

def prepend (front : Octets) : Reads Octets → Reads Octets
  | .ok (text, rest) => .ok (front ++ text, rest)
  | .error e => .error e

/-- A string up to its closing quote. Escaped surrogates have to come in pairs. -/
def string : Octets → Reads Octets
  | [] => .error .truncated
  | b :: s =>
    if b = quote then .ok ([], s)
    else if b = backslash then
      match s with
      | [] => .error .truncated
      | 0x75 :: a₁ :: a₂ :: a₃ :: a₄ :: s =>
        match hex a₁ a₂ a₃ a₄ with
        | none => .error .malformed
        | some unit =>
          if isTrail unit then .error .malformed
          else if isLead unit then
            match s with
            | [] => .error .truncated
            | 0x5C :: [] => .error .truncated
            | 0x5C :: 0x75 :: b₁ :: b₂ :: b₃ :: b₄ :: s =>
              match hex b₁ b₂ b₃ b₄ with
              | none => .error .malformed
              | some trail =>
                if isTrail trail then prepend (codePoint (joinUnits unit trail)) (string s)
                else .error .malformed
            | 0x5C :: 0x75 :: _ => .error .truncated
            | _ => .error .malformed
          else prepend (codePoint unit) (string s)
      | 0x75 :: _ => .error .truncated
      | e :: s =>
        match escaped e with
        | none => .error .malformed
        | some c => prepend [c] (string s)
    else if b < 0x20 then .error .malformed
    else prepend [b] (string s)

/-- Passes over a string; escaped code units are not looked at. -/
def skipString : Octets → Except Fault Octets
  | [] => .error .truncated
  | b :: s =>
    if b = quote then .ok s
    else if b = backslash then
      match s with
      | [] => .error .truncated
      | 0x75 :: a₁ :: a₂ :: a₃ :: a₄ :: s =>
        if (hex a₁ a₂ a₃ a₄).isSome then skipString s else .error .malformed
      | 0x75 :: _ => .error .truncated
      | e :: s => if (escaped e).isSome then skipString s else .error .malformed
    else if b < 0x20 then .error .malformed
    else skipString s

/-! ### Numbers, from behind their sign -/

/-- A natural number below two to the 64th written without fraction, exponent or sign, or else the
64-bit scalar that the number is taken for. -/
inductive Number
  | index (n : Nat)
  | scalar (x : Scalar .double)

/-- Digits are taken into the significand while it stays below this. -/
def significandLimit : Nat := 2 ^ (64 : Nat)

def powerOfTen (k : Nat) : Scalar .double := Scalar.ofNat (10 ^ k)

/-- `x` times a power of ten, in steps that each round: one product or quotient by a power up to
the 308th, quotients by the 308th before that. No result where the product is too large. -/
def scaleByTen (x : Scalar .double) (e : Int) : Option (Scalar .double) :=
  if 0 ≤ e then
    if e ≤ 308 then
      let y := x * powerOfTen e.toNat
      if y.isInfinite then none else some y
    else if x.isZero then some x else none
  else if -308 ≤ e then some (x / powerOfTen (-e).toNat)
  else if x.isZero then some x
  else scaleByTen (x / powerOfTen 308) (e + 308)
termination_by (-e).toNat
decreasing_by omega

def numberOf (positive : Bool) (significand : Nat) (e : Int) (rest : Octets) : Reads Number :=
  match scaleByTen (Scalar.ofNat significand) e with
  | some x => .ok (.scalar (if positive then x else -x), rest)
  | none => .error .malformed

/-- Largest power of ten that is computed with. -/
def exponentLimit : Nat := 2 ^ (31 : Nat)

def exponent (positive : Bool) (significand : Nat) (e : Int) (s : Octets) : Reads Number :=
  let (up, s) := match s with
    | [] => (true, [])
    | b :: r => if b = plus then (true, r) else if b = minus then (false, r) else (true, b :: r)
  match s with
  | [] => .error .truncated
  | b :: _ =>
    if isDigit b then
      let digits := s.takeWhile isDigit
      let rest := s.dropWhile isDigit
      let n := digits.foldl (fun n b => 10 * n + digit b) 0
      if exponentLimit ≤ n then
        if significand ≠ 0 ∧ up then .error .malformed
        else .ok (.scalar (.signedZero !positive), rest)
      else numberOf positive significand (if up then e + n else e - n) rest
    else .error .malformed

/-- An exponent if its mark comes next, then the number. -/
def afterDigits (positive : Bool) (significand : Nat) (e : Int) : Octets → Reads Number
  | [] => numberOf positive significand e []
  | b :: s =>
    if isExponentMark b then exponent positive significand e s
    else numberOf positive significand e (b :: s)

/-- Digits behind the point; those that the significand cannot take are passed over. -/
def fraction (positive : Bool) (significand : Nat) (e : Int) : Octets → Reads Number
  | [] => afterDigits positive significand e []
  | b :: s =>
    if isDigit b then
      let next := 10 * significand + digit b
      if next < significandLimit then fraction positive next (e - 1) s
      else afterDigits positive significand e (s.dropWhile isDigit)
    else afterDigits positive significand e (b :: s)

def afterPoint (positive : Bool) (significand : Nat) (e : Int) : Octets → Reads Number
  | [] => .error .truncated
  | b :: s =>
    if isDigit b then fraction positive significand e (b :: s) else .error .malformed

/-- Digits before the point, beyond the first. Those that the significand cannot take raise the
power of ten instead. -/
def integer (positive : Bool) (significand : Nat) : Octets → Reads Number
  | [] => finish []
  | b :: s =>
    if isDigit b then
      let next := 10 * significand + digit b
      if next < significandLimit then integer positive next s
      else
        let more := (b :: s).takeWhile isDigit
        match (b :: s).dropWhile isDigit with
        | [] => numberOf positive significand more.length []
        | c :: r =>
          if c = point then afterPoint positive significand more.length r
          else afterDigits positive significand more.length (c :: r)
    else finish (b :: s)
where
  finish : Octets → Reads Number
    | [] => .ok (whole, [])
    | b :: s =>
      if b = point then afterPoint positive significand 0 s
      else if isExponentMark b then exponent positive significand 0 s
      else .ok (whole, b :: s)
  whole : Number :=
    if positive then .index significand else .scalar (-Scalar.ofNat significand)

/-- A number from behind its sign: a zero alone, or digits that do not start with one. -/
def number (positive : Bool) : Octets → Reads Number
  | [] => .error .truncated
  | b :: s =>
    if b = 0x30 then
      match s with
      | [] => integer positive 0 []
      | c :: r => if isDigit c then .error .malformed else integer positive 0 (c :: r)
    else if isDigit b then integer positive (digit b) s
    else .error .malformed

def skipExponent (s : Octets) : Except Fault Octets :=
  let s := match s with
    | [] => []
    | b :: r => if b = plus ∨ b = minus then r else b :: r
  match s with
  | [] => .error .malformed
  | b :: r => if isDigit b then .ok (r.dropWhile isDigit) else .error .malformed

def skipAfterDigits : Octets → Except Fault Octets
  | [] => .ok []
  | b :: s =>
    if b = point then
      match s with
      | [] => .error .malformed
      | c :: r =>
        if isDigit c then
          match r.dropWhile isDigit with
          | [] => .ok []
          | d :: t => if isExponentMark d then skipExponent t else .ok (d :: t)
        else .error .malformed
    else if isExponentMark b then skipExponent s
    else .ok (b :: s)

/-- Passes over a number from behind its sign; its size is not looked at. -/
def skipNumber : Octets → Except Fault Octets
  | [] => .error .malformed
  | b :: s =>
    if b = 0x30 then
      match s with
      | [] => .ok []
      | c :: r => if isDigit c then .error .malformed else skipAfterDigits (c :: r)
    else if isDigit b then skipAfterDigits (s.dropWhile isDigit)
    else .error .malformed

end CowArrays.Json
