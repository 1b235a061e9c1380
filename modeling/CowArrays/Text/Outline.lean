/-!
Values written out for inspection: records, lists and sets of named parts, on one line or with each
part on a line of its own.
-/

namespace CowArrays

inductive Outline
  | atom (text : String)
  | list (items : List Outline)
  | set (items : List Outline)
  /-- With `hasMore` the record says that it has parts that are not shown. -/
  | record (name : String) (fields : List (String × Outline)) (hasMore : Bool)

namespace Outline

mutual

def flat : Outline → String
  | atom text => text
  | list items => "[" ++ flatItems items ++ "]"
  | set items => "\x7b" ++ flatItems items ++ "\x7d"
  | record name fields hasMore =>
    name ++ " \x7b " ++ flatFields fields ++ (if hasMore then ", .. \x7d" else " \x7d")

def flatItems : List Outline → String
  | [] => ""
  | [x] => flat x
  | x :: xs => flat x ++ ", " ++ flatItems xs

def flatFields : List (String × Outline) → String
  | [] => ""
  | [(key, x)] => key ++ ": " ++ flat x
  | (key, x) :: xs => key ++ ": " ++ flat x ++ ", " ++ flatFields xs

end

def margin (depth : Nat) : String := .ofList (List.replicate (4 * depth) ' ')

mutual

/-- Each part on its own line, four blanks deeper than the whole, with a comma behind it. -/
def tall (depth : Nat) : Outline → String
  | atom text => text
  | list [] => "[]"
  | list items => "[\n" ++ tallItems (depth + 1) items ++ margin depth ++ "]"
  | set [] => "\x7b\x7d"
  | set items => "\x7b\n" ++ tallItems (depth + 1) items ++ margin depth ++ "\x7d"
  | record name fields hasMore =>
    name ++ " \x7b\n" ++ tallFields (depth + 1) fields ++
      (if hasMore then margin (depth + 1) ++ "..\n" else "") ++ margin depth ++ "\x7d"

def tallItems (depth : Nat) : List Outline → String
  | [] => ""
  | x :: xs => margin depth ++ tall depth x ++ ",\n" ++ tallItems depth xs

def tallFields (depth : Nat) : List (String × Outline) → String
  | [] => ""
  | (key, x) :: xs =>
    margin depth ++ key ++ ": " ++ tall depth x ++ ",\n" ++ tallFields depth xs

end

end Outline
end CowArrays
