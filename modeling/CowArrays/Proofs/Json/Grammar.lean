import CowArrays.Json.Token

/-!
The grammar of JSON over octets, apart from any reader: strings and what they decode to, numerals,
and values with white space wherever it may stand. Lists and objects are one kind of sequence, with
another grammar for what stands between the commas.
-/

namespace CowArrays.Json

variable {α κ : Type}

/-- What all octets of a list satisfy is decided along the list, also where a library decides it by
going through all octets there are. -/
instance (priority := 2000) {P : UInt8 → Prop} [DecidablePred P] (s : Octets) :
    Decidable (∀ b ∈ s, P b) := List.decidableBAll P s

abbrev Blanks (s : Octets) : Prop := ∀ b ∈ s, isBlank b = true

theorem blanks_nil : Blanks [] := nofun

/-! ### Sequences -/

/-- What stands behind an item: more items, each behind a comma, and the closing octet. -/
inductive Tail (item : Octets → α → Prop) (closing : UInt8) : Octets → List α → Prop
  | done {blanks : Octets} (hblanks : Blanks blanks) : Tail item closing (blanks ++ [closing]) []
  | more {before behind w tail : Octets} {x : α} {xs : List α} (hbefore : Blanks before)
      (hbehind : Blanks behind) (h : item w x) (rest : Tail item closing tail xs) :
      Tail item closing (before ++ comma :: (behind ++ (w ++ tail))) (x :: xs)

/-- Items with commas between them, from the opening octet to the closing one. -/
inductive Enclosed (item : Octets → α → Prop) (opening closing : UInt8) : Octets → List α → Prop
  | empty {blanks : Octets} (hblanks : Blanks blanks) :
      Enclosed item opening closing (opening :: (blanks ++ [closing])) []
  | items {blanks w tail : Octets} {x : α} {xs : List α} (hblanks : Blanks blanks) (h : item w x)
      (rest : Tail item closing tail xs) :
      Enclosed item opening closing (opening :: (blanks ++ (w ++ tail))) (x :: xs)

/-- Whether a text can come next in a list: neither white space nor the end of the list do. -/
def Starts (w : Octets) : Prop := ∃ b rest, w = b :: rest ∧ isBlank b = false ∧ b ≠ closeList

/-- An item that stands for its own text. -/
def Item (value : Octets → Prop) (w x : Octets) : Prop := value w ∧ x = w

/-- A member of an object: what its key stands for, and the text of its value. -/
inductive Member (key : Octets → κ → Prop) (value : Octets → Prop) : Octets → κ × Octets → Prop
  | mk {s before behind w : Octets} {k : κ} (hkey : key s k) (hbefore : Blanks before)
      (hbehind : Blanks behind) (h : value w) :
      Member key value (quote :: (s ++ (before ++ colon :: (behind ++ w)))) (k, w)

theorem Tail.forall_mem {item : Octets → α → Prop} {closing : UInt8} {P : α → Prop} {w : Octets}
    {xs : List α} (h : Tail item closing w xs) (hP : ∀ {w x}, item w x → P x) : ∀ x ∈ xs, P x := by
  induction h with
  | done => exact nofun
  | more _ _ h _ ih => exact List.forall_mem_cons.2 ⟨hP h, ih⟩

theorem Enclosed.forall_mem {item : Octets → α → Prop} {opening closing : UInt8} {P : α → Prop}
    {w : Octets} {xs : List α} (h : Enclosed item opening closing w xs)
    (hP : ∀ {w x}, item w x → P x) : ∀ x ∈ xs, P x := by
  cases h with
  | empty => exact nofun
  | items _ h rest => exact List.forall_mem_cons.2 ⟨hP h, rest.forall_mem hP⟩

/-- Other items at the same places. -/
theorem Tail.map {β : Type} {item : Octets → α → Prop} {item' : Octets → β → Prop} {closing : UInt8}
    {w : Octets} {xs : List α} (h : Tail item closing w xs) (f : α → β)
    (hf : ∀ {w x}, item w x → item' w (f x)) : Tail item' closing w (xs.map f) := by
  induction h with
  | done hblanks => exact .done hblanks
  | more hbefore hbehind h _ ih => exact .more hbefore hbehind (hf h) ih

theorem Enclosed.map {β : Type} {item : Octets → α → Prop} {item' : Octets → β → Prop}
    {opening closing : UInt8} {w : Octets} {xs : List α} (h : Enclosed item opening closing w xs)
    (f : α → β) (hf : ∀ {w x}, item w x → item' w (f x)) :
    Enclosed item' opening closing w (xs.map f) := by
  cases h with
  | empty hblanks => exact .empty hblanks
  | items hblanks h rest => exact .items hblanks (hf h) (rest.map f hf)

theorem Enclosed.imp {item item' : Octets → α → Prop} {opening closing : UInt8} {w : Octets}
    {xs : List α} (h : Enclosed item opening closing w xs) (hitem : ∀ {w x}, item w x → item' w x) :
    Enclosed item' opening closing w xs := by
  simpa only [List.map_id] using h.map id hitem

/-! ### What may follow a value -/

/-- What a number does not go on with. -/
def Ends (rest : Octets) : Prop :=
  ∀ b ∈ rest.head?, isDigit b = false ∧ b ≠ point ∧ isExponentMark b = false

theorem ends_nil : Ends [] := nofun

theorem ends_of_isBlank {b : UInt8} (h : isBlank b = true) :
    isDigit b = false ∧ b ≠ point ∧ isExponentMark b = false := by
  simp only [isBlank, Bool.or_eq_true, beq_iff_eq] at h
  rcases h with ((rfl | rfl) | rfl) | rfl <;> decide

theorem ends_append_cons {blanks : Octets} (h : Blanks blanks) {b : UInt8}
    (hb : b = comma ∨ b = closeList ∨ b = closeObject) (rest : Octets) :
    Ends (blanks ++ b :: rest) := by
  intro c hc
  cases blanks with
  | nil =>
    obtain rfl := Option.some.inj hc
    rcases hb with rfl | rfl | rfl <;> decide
  | cons d blanks =>
    obtain rfl := Option.some.inj hc
    exact ends_of_isBlank (h _ List.mem_cons_self)

theorem Tail.ends {item : Octets → α → Prop} {closing : UInt8} {w : Octets} {xs : List α}
    (hclosing : closing = closeList ∨ closing = closeObject) (h : Tail item closing w xs)
    (rest : Octets) : Ends (w ++ rest) := by
  cases h with
  | done hblanks =>
    rw [List.append_assoc]
    exact ends_append_cons hblanks (.inr hclosing) rest
  | more hbefore =>
    rw [List.append_assoc]
    exact ends_append_cons hbefore (.inl rfl) _

theorem Member.value {key : Octets → κ → Prop} {value : Octets → Prop} {w : Octets}
    {x : κ × Octets} (h : Member key value w x) : value x.2 := by
  cases h
  assumption

/-! ### Strings, from behind their opening quote -/

/-- Octets that stand for themselves in a string. -/
def IsPlain (b : UInt8) : Prop := b ≠ quote ∧ b ≠ backslash ∧ ¬b < 0x20

instance (b : UInt8) : Decidable (IsPlain b) := inferInstanceAs (Decidable (_ ∧ _))

/-- Strings with their escapes; escaped code units need not make sense. -/
inductive IsString : Octets → Prop
  | done : IsString [quote]
  | plain {b : UInt8} {s : Octets} (hb : IsPlain b) (h : IsString s) : IsString (b :: s)
  | short {e : UInt8} {s : Octets} (he : (escaped e).isSome = true) (h : IsString s) :
      IsString (backslash :: e :: s)
  | unit {a b c d : UInt8} {s : Octets} (hunit : (hex a b c d).isSome = true) (h : IsString s) :
      IsString (backslash :: 0x75 :: a :: b :: c :: d :: s)

/-- Strings and the octets that they decode to. -/
inductive SpellsString : Octets → Octets → Prop
  | done : SpellsString [quote] []
  | plain {b : UInt8} {s text : Octets} (hb : IsPlain b) (h : SpellsString s text) :
      SpellsString (b :: s) (b :: text)
  | short {e c : UInt8} {s text : Octets} (he : escaped e = some c) (h : SpellsString s text) :
      SpellsString (backslash :: e :: s) (c :: text)
  | unit {a b c d : UInt8} {unit : Nat} {s text : Octets} (hunit : hex a b c d = some unit)
      (htrail : isTrail unit = false) (hlead : isLead unit = false) (h : SpellsString s text) :
      SpellsString (backslash :: 0x75 :: a :: b :: c :: d :: s) (codePoint unit ++ text)
  | pair {a b c d a' b' c' d' : UInt8} {lead trail : Nat} {s text : Octets}
      (hunit : hex a b c d = some lead) (hlead : isLead lead = true)
      (hunit' : hex a' b' c' d' = some trail) (htrail : isTrail trail = true)
      (h : SpellsString s text) :
      SpellsString
        (backslash :: 0x75 :: a :: b :: c :: d :: backslash :: 0x75 :: a' :: b' :: c' :: d' :: s)
        (codePoint (joinUnits lead trail) ++ text)

theorem spellsString_plain {s : Octets} (h : ∀ b ∈ s, IsPlain b) :
    SpellsString (s ++ [quote]) s := by
  induction s with
  | nil => exact .done
  | cons b s ih =>
    obtain ⟨hb, hs⟩ := List.forall_mem_cons.1 h
    exact .plain hb (ih hs)

/-! ### Numerals -/

def AreDigits (s : Octets) : Prop := s ≠ [] ∧ ∀ b ∈ s, isDigit b = true

instance (s : Octets) : Decidable (AreDigits s) := inferInstanceAs (Decidable (_ ∧ _))

/-- The number that digits spell behind others. -/
def valueFrom (m : Nat) (digits : Octets) : Nat := digits.foldl (fun n b => 10 * n + digit b) m

/-- A power of ten behind its mark. -/
structure Power where
  mark : UInt8
  sign : Option Bool
  digits : Octets
  isMark : isExponentMark mark = true
  areDigits : AreDigits digits

namespace Power

def up (p : Power) : Bool := p.sign.getD true

def signText (p : Power) : Octets :=
  match p.sign with
  | none => []
  | some true => [plus]
  | some false => [minus]

def text (p : Power) : Octets := p.mark :: (p.signText ++ p.digits)

def size (p : Power) : Nat := valueFrom 0 p.digits

end Power

/-- A number as it is written. -/
structure Numeral where
  negative : Bool
  whole : Octets
  /-- Digits behind the point. None means no point. -/
  fraction : Octets
  power : Option Power
  wholeDigits : AreDigits whole
  noLeadingZero : whole.head? = some 0x30 → whole = [0x30]
  fractionDigits : ∀ b ∈ fraction, isDigit b = true

namespace Numeral

def behindWhole (n : Numeral) : Octets :=
  (if n.fraction = [] then [] else point :: n.fraction) ++ n.power.elim [] Power.text

def unsigned (n : Numeral) : Octets := n.whole ++ n.behindWhole

def text (n : Numeral) : Octets := (if n.negative then [minus] else []) ++ n.unsigned

end Numeral

/-! ### Values -/

/-- Well-formed values of any type. -/
inductive IsValue : Octets → Prop
  | null : IsValue (word "null")
  | bool (b : Bool) : IsValue (word (if b then "true" else "false"))
  | number (n : Numeral) : IsValue n.text
  | string {s : Octets} (h : IsString s) : IsValue (quote :: s)
  | list {w : Octets} {items : List Unit}
      (h : Enclosed (fun w _ => IsValue w) openList closeList w items) : IsValue w
  | object {w : Octets} {members : List (Unit × Octets)}
      (h : Enclosed (Member (fun s _ => IsString s) IsValue) openObject closeObject w members) :
      IsValue w

/-- What holds of all values: of lists and objects where it holds of all values in them. -/
theorem IsValue.induction {motive : Octets → Prop} (null : motive (word "null"))
    (bool : ∀ b : Bool, motive (word (if b then "true" else "false")))
    (number : ∀ n : Numeral, motive n.text)
    (string : ∀ {s}, IsString s → motive (quote :: s))
    (list : ∀ {w} {items : List Unit},
      Enclosed (fun w _ => motive w) openList closeList w items → motive w)
    (object : ∀ {w} {members : List (Unit × Octets)},
      Enclosed (Member (fun s _ => IsString s) motive) openObject closeObject w members → motive w)
    {w : Octets} (h : IsValue w) : motive w := by
  exact @IsValue.rec (fun w _ => motive w)
    (fun w xs _ => Enclosed (fun w _ => motive w) openList closeList w xs)
    (fun w xs _ => Enclosed (Member (fun s _ => IsString s) motive) openObject closeObject w xs)
    (fun w xs _ => Tail (fun w _ => motive w) closeList w xs)
    (fun w x _ => Member (fun s _ => IsString s) motive w x)
    (fun w xs _ => Tail (Member (fun s _ => IsString s) motive) closeObject w xs)
    null bool number string (fun _ => list) (fun _ => object)
    .empty (fun hblanks _ _ h rest => .items hblanks h rest)
    .empty (fun hblanks _ _ h rest => .items hblanks h rest)
    .done (fun hbefore hbehind _ _ h rest => .more hbefore hbehind h rest)
    (fun hkey hbefore hbehind _ h => .mk hkey hbefore hbehind h)
    .done (fun hbefore hbehind _ _ h rest => .more hbefore hbehind h rest) w h

end CowArrays.Json
