/-!
JSON values and their two written forms: without any white space, and indented by two blanks.
-/

namespace CowArrays.Json

inductive Value
  | null
  | bool (b : Bool)
  /-- A number as it is written. -/
  | number (text : String)
  | string (text : String)
  | list (items : List Value)
  | object (members : List (String × Value))

def hexDigits (n : Nat) : List Char := [Nat.digitChar (n / 16), Nat.digitChar (n % 16)]

def escape (c : Char) : List Char :=
  if c = '"' then ['\\', '"']
  else if c = '\\' then ['\\', '\\']
  else if c = '\n' then ['\\', 'n']
  else if c = '\r' then ['\\', 'r']
  else if c = '\t' then ['\\', 't']
  else if c.toNat = 8 then ['\\', 'b']
  else if c.toNat = 12 then ['\\', 'f']
  else if c.toNat < 32 then ['\\', 'u', '0', '0'] ++ hexDigits c.toNat
  else [c]

def quoted (s : String) : String := .ofList ('"' :: s.toList.flatMap escape ++ ['"'])

namespace Value

mutual

def compact : Value → String
  | null => "null"
  | bool b => if b then "true" else "false"
  | number text => text
  | string text => quoted text
  | list items => "[" ++ compactItems items ++ "]"
  | object members => "\x7b" ++ compactMembers members ++ "\x7d"

def compactItems : List Value → String
  | [] => ""
  | [x] => compact x
  | x :: xs => compact x ++ "," ++ compactItems xs

def compactMembers : List (String × Value) → String
  | [] => ""
  | [(key, x)] => quoted key ++ ":" ++ compact x
  | (key, x) :: xs => quoted key ++ ":" ++ compact x ++ "," ++ compactMembers xs

end

def margin (depth : Nat) : String := .ofList (List.replicate (2 * depth) ' ')

mutual

def pretty (depth : Nat) : Value → String
  | null => "null"
  | bool b => if b then "true" else "false"
  | number text => text
  | string text => quoted text
  | list [] => "[]"
  | list items => "[\n" ++ prettyItems (depth + 1) items ++ "\n" ++ margin depth ++ "]"
  | object [] => "\x7b\x7d"
  | object members =>
    "\x7b\n" ++ prettyMembers (depth + 1) members ++ "\n" ++ margin depth ++ "\x7d"

def prettyItems (depth : Nat) : List Value → String
  | [] => ""
  | [x] => margin depth ++ pretty depth x
  | x :: xs => margin depth ++ pretty depth x ++ ",\n" ++ prettyItems depth xs

def prettyMembers (depth : Nat) : List (String × Value) → String
  | [] => ""
  | [(key, x)] => margin depth ++ quoted key ++ ": " ++ pretty depth x
  | (key, x) :: xs =>
    margin depth ++ quoted key ++ ": " ++ pretty depth x ++ ",\n" ++ prettyMembers depth xs

end

end Value

def Value.index (n : Nat) : Value := .number (toString n)

end CowArrays.Json
