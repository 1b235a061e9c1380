import CowArrays.Json.Token

/-!
JSON documents read in one pass into a value of a known type: values that are passed over, values
of the wrong type, lists, objects, and the end of the text.

Readers that repeat take a count of steps. Of any two steps one passes over an octet, so twice the
length of the text is always enough.
-/

namespace CowArrays.Json

/-- Passes over a word whose first letter has been seen. -/
def skipWord? (b : UInt8) (s : Octets) : Option (Except Fault Octets) :=
  if b = 0x6E then some (expectWord (word "ull") s)
  else if b = 0x74 then some (expectWord (word "rue") s)
  else if b = 0x66 then some (expectWord (word "alse") s)
  else none

mutual

def skipValue : (fuel : Nat) → Octets → Except Fault Octets
  | 0, _ => .error .truncated
  | fuel + 1, s =>
    match skipBlanks s with
    | [] => .error .truncated
    | b :: s =>
      match skipWord? b s with
      | some r => r
      | none =>
        if b = minus then skipNumber s
        else if isDigit b then skipNumber (b :: s)
        else if b = quote then skipString s
        else if b = openList then
          match skipBlanks s with
          | [] => .error .truncated
          | c :: r => if c = closeList then .ok r else skipItems fuel (c :: r)
        else if b = openObject then
          match skipBlanks s with
          | [] => .error .truncated
          | c :: r => if c = closeObject then .ok r else skipMembers fuel (c :: r)
        else .error .malformed

def skipItems : (fuel : Nat) → Octets → Except Fault Octets
  | 0, _ => .error .truncated
  | fuel + 1, s => do
    let s ← skipValue fuel s
    match skipBlanks s with
    | [] => .error .truncated
    | b :: r =>
      if b = comma then skipItems fuel r
      else if b = closeList then .ok r
      else .error .malformed

def skipMembers : (fuel : Nat) → Octets → Except Fault Octets
  | 0, _ => .error .truncated
  | fuel + 1, s =>
    match skipBlanks s with
    | [] => .error .truncated
    | b :: s =>
      if b = quote then do
        let s ← skipString s
        match skipBlanks s with
        | [] => .error .truncated
        | c :: s =>
          if c = colon then do
            let s ← skipValue fuel s
            match skipBlanks s with
            | [] => .error .truncated
            | d :: r =>
              if d = comma then skipMembers fuel r
              else if d = closeObject then .ok r
              else .error .malformed
          else .error .malformed
      else .error .malformed

end

/-- The fault of a value that starts with `b` where another type is wanted: that of its first token
if this has one, else the value is unsuitable. -/
def refuse (b : UInt8) (s : Octets) : Fault :=
  let after {α : Type} : Except Fault α → Fault
    | .ok _ => .unsuitable
    | .error e => e
  match skipWord? b s with
  | some r => after r
  | none =>
    if b = minus then after (number false s)
    else if isDigit b then after (number true (b :: s))
    else if b = quote then after (string s)
    else if b = openList ∨ b = openObject then .unsuitable
    else .malformed

def bool (s : Octets) : Reads Bool :=
  match skipBlanks s with
  | [] => .error .truncated
  | b :: s =>
    if b = 0x74 then (expectWord (word "rue") s).map fun r => (true, r)
    else if b = 0x66 then (expectWord (word "alse") s).map fun r => (false, r)
    else .error (refuse b s)

def null (s : Octets) : Except Fault Octets :=
  match skipBlanks s with
  | [] => .error .truncated
  | b :: s => if b = 0x6E then expectWord (word "ull") s else .error (refuse b s)

def signed (s : Octets) : Reads Number :=
  match skipBlanks s with
  | [] => .error .truncated
  | b :: s =>
    if b = minus then number false s
    else if isDigit b then number true (b :: s)
    else .error (refuse b s)

def scalar (s : Octets) : Reads (Scalar .double) :=
  match signed s with
  | .ok (.index n, rest) => .ok (Scalar.ofNat n, rest)
  | .ok (.scalar x, rest) => .ok (x, rest)
  | .error e => .error e

def index (s : Octets) : Reads Nat :=
  match signed s with
  | .ok (.index n, rest) => .ok (n, rest)
  | .ok (.scalar _, _) => .error .unsuitable
  | .error e => .error e

/-- Whether a list goes on: the text at its next item, or nothing where the list ends. -/
def nextItem (first : Bool) (s : Octets) : Except Fault (Option Octets) :=
  match skipBlanks s with
  | [] => .error .truncated
  | b :: s =>
    if b = closeList then .ok none
    else if first then .ok (some (b :: s))
    else if b = comma then
      match skipBlanks s with
      | [] => .error .truncated
      | c :: r => if c = closeList then .error .malformed else .ok (some (c :: r))
    else .error .malformed

/-- The end of a list; anything before it is malformed, one item more too. -/
def endList (s : Octets) : Except Fault Octets :=
  match skipBlanks s with
  | [] => .error .truncated
  | b :: r => if b = closeList then .ok r else .error .malformed

def items {α : Type} (item : Octets → Reads α) : (fuel : Nat) → (first : Bool) → Octets →
    Except Fault (List α × Octets)
  | 0, _, _ => .error .truncated
  | fuel + 1, first, s => do
    match ← nextItem first s with
    | none => return ([], ← endList s)
    | some s =>
      let (x, s) ← item s
      let (xs, s) ← items item fuel false s
      return (x :: xs, s)

def list {α : Type} (item : Octets → Reads α) (s : Octets) : Reads (List α) :=
  match skipBlanks s with
  | [] => .error .truncated
  | b :: s => if b = openList then items item (s.length + 1) true s else .error (refuse b s)

/-- The key of the next member of an object, or nothing where the object ends. -/
def nextKey (first : Bool) (s : Octets) : Except Fault (Option Octets × Octets) :=
  let key (s : Octets) : Except Fault (Option Octets × Octets) :=
    match s with
    | [] => .error .truncated
    | b :: s =>
      if b = quote then do
        let (k, s) ← string s
        return (some k, s)
      else .error .malformed
  match skipBlanks s with
  | [] => .error .truncated
  | b :: s =>
    if b = closeObject then return (none, s)
    else if first then key (b :: s)
    else if b = comma then key (skipBlanks s)
    else .error .malformed

def expectColon (s : Octets) : Except Fault Octets :=
  match skipBlanks s with
  | [] => .error .truncated
  | b :: s => if b = colon then .ok s else .error .malformed

/-- The members of an object from behind its opening brace up to its end, folded into a state.
`member` gets the key and the text behind it. -/
def members {σ : Type} (member : σ → Octets → Octets → Reads σ) :
    (fuel : Nat) → (first : Bool) → σ → Octets → Except Fault (σ × Octets)
  | 0, _, _, _ => .error .truncated
  | fuel + 1, first, state, s => do
    match ← nextKey first s with
    | (none, s) => return (state, s)
    | (some key, s) =>
      let (state, s) ← member state key s
      members member fuel false state s

def skipMember (s : Octets) : Except Fault Octets := do
  let s ← expectColon s
  skipValue (2 * s.length + 2) s

def memberValue {α : Type} (value : Octets → Reads α) (s : Octets) : Except Fault (α × Octets) := do
  value (← expectColon s)

/-- A document: one value, then nothing but white space. -/
def document {α : Type} (value : Octets → Reads α) (s : Octets) : Except Fault α := do
  let (x, rest) ← value s
  if (skipBlanks rest).isEmpty then return x else .error .malformed

end CowArrays.Json
