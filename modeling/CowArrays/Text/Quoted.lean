import CowArrays.Text.Shown

/-!
Text in quotes, with everything escaped that could not be read back or be seen.
-/

namespace CowArrays.Text

/-- Hexadecimal digits of a code point between braces. -/
def unicodeEscape (c : Char) : List Char :=
  ['\\', 'u', '\x7b'] ++ Nat.toDigits 16 c.toNat ++ ['\x7d']

def escape (c : Char) : List Char :=
  if c = '"' then ['\\', '"']
  else if c = '\\' then ['\\', '\\']
  else if c = '\n' then ['\\', 'n']
  else if c = '\r' then ['\\', 'r']
  else if c = '\t' then ['\\', 't']
  else if c.toNat = 0 then ['\\', '0']
  else if c.toNat < 0x20 ∨ c.toNat = 0x7F then unicodeEscape c
  else if c.toNat < 0x80 ∨ isShown c then [c]
  else unicodeEscape c

def quoted (s : String) : String := .ofList ('"' :: s.toList.flatMap escape ++ ['"'])

end CowArrays.Text
