import CowArrays.Json.Value
import CowArrays.Proofs.Json.Kinds
import Mathlib.Data.List.Forall2

/-!
What is written is JSON: in both written forms lists and objects have their items in order, with
nothing but white space and commas between them.
-/

namespace CowArrays.Json

variable {α : Type} {item : Octets → α → Prop} {opening closing : UInt8}

/-! ### Sequences that are put together -/

def joined (gap : Octets) : List Octets → Octets
  | [] => []
  | w :: ws => comma :: (gap ++ (w ++ joined gap ws))

theorem tail_joined {gap blanks : Octets} (hgap : Blanks gap) (hblanks : Blanks blanks)
    {ws : List Octets} {xs : List α} (h : List.Forall₂ item ws xs) :
    Tail item closing (joined gap ws ++ (blanks ++ [closing])) xs := by
  induction h with
  | nil => exact .done hblanks
  | @cons w x ws xs hw _ ih =>
    have hmore := Tail.more blanks_nil hgap hw ih
    simpa only [joined, List.nil_append, List.cons_append, List.append_assoc] using hmore

/-! ### Both written forms -/

/-- A written form: compact, or indented from a depth on. -/
inductive Layout
  | compact
  | indented (depth : Nat)

namespace Layout

def write : Layout → Value → String
  | compact, v => v.compact
  | indented depth, v => v.pretty depth

def octets (l : Layout) (v : Value) : Octets := (l.write v).toUTF8.toList

/-- The form of the items of a list or an object. -/
def inner : Layout → Layout
  | compact => compact
  | indented depth => indented (depth + 1)

/-- What stands before an item or a closing bracket. -/
def gap : Layout → Octets
  | compact => []
  | indented depth => 0x0A :: (Value.margin depth).toUTF8.toList

def space : Layout → Octets
  | compact => []
  | indented _ => [0x20]

end Layout

theorem octets_toString (n : Nat) :
    (toString n).toUTF8.toList = (Nat.toDigits 10 n).map octetOf := by
  have hdigits : (toString n).toList = Nat.toDigits 10 n := by simp
  have hvisible : ∀ c ∈ (toString n).toList, Text.IsVisible c := by
    rw [hdigits]
    exact fun _ hc => visible_of_isDigit (isDigit_of_mem_toDigits hc)
  rw [octets_of_visible hvisible, word_eq, hdigits]

theorem isBlank_of_mem_margin {depth : Nat} : Blanks (Value.margin depth).toUTF8.toList := by
  intro b hb
  rw [Text.toList_toUTF8, Value.margin, String.toList_ofList] at hb
  obtain ⟨c, hc, hb⟩ := List.mem_flatMap.1 hb
  rw [(List.mem_replicate.1 hc).2] at hb
  have hspace : String.utf8EncodeChar ' ' = [0x20] := by decide
  rw [hspace, List.mem_singleton] at hb
  rw [hb]
  rfl

namespace Layout

theorem blanks_gap (l : Layout) : Blanks l.gap := by
  cases l with
  | compact => exact nofun
  | indented depth => exact List.forall_mem_cons.2 ⟨rfl, isBlank_of_mem_margin⟩

theorem blanks_space (l : Layout) : Blanks l.space := by
  cases l with
  | compact => exact nofun
  | indented => exact List.forall_mem_cons.2 ⟨rfl, nofun⟩

end Layout

/-! ### Keys -/

/-- Keys that are written as they are. -/
def IsBare (key : String) : Prop := ∀ c ∈ key.toList, Text.IsVisible c ∧ c ≠ '"' ∧ c ≠ '\\'

instance (key : String) : Decidable (IsBare key) := List.decidableBAll _ key.toList

namespace IsBare

variable {key : String} (h : IsBare key)

include h

theorem quoted_eq : quoted key = .ofList ('"' :: (key.toList ++ ['"'])) := by
  have hescape : key.toList.flatMap escape = key.toList := by
    have hself : ∀ c ∈ key.toList, escape c = [c] := by
      intro c hc
      obtain ⟨⟨hlow, -⟩, hquote, hbackslash⟩ := h c hc
      -- a visible character is above all that are escaped for their number
      have hne (d : Char) (hd : d.toNat ≤ 0x20) : c ≠ d := by
        rintro rfl
        omega
      unfold escape
      rw [if_neg hquote, if_neg hbackslash, if_neg (hne '\n' (by decide)),
        if_neg (hne '\r' (by decide)), if_neg (hne '\t' (by decide)), if_neg (by omega),
        if_neg (by omega), if_neg (by omega)]
    rw [List.flatMap_congr hself, List.flatMap_singleton']
  rw [quoted, hescape]
  rfl

theorem octets_quoted : (quoted key).toUTF8.toList = quote :: (word key ++ [quote]) := by
  have hvisible : ∀ c ∈ (quoted key).toList, Text.IsVisible c := by
    rw [h.quoted_eq, String.toList_ofList]
    simp only [List.mem_cons, List.mem_append, List.not_mem_nil, or_false]
    rintro c (rfl | hc | rfl)
    · decide
    · exact (h c hc).1
    · decide
  rw [octets_of_visible hvisible, h.quoted_eq, word_eq, String.toList_ofList, List.map_cons,
    List.map_append]
  rfl

theorem isPlain : ∀ b ∈ word key, IsPlain b := by
  intro b hb
  obtain ⟨c, hc, rfl⟩ := List.mem_map.1 hb
  obtain ⟨⟨hlow, hhigh⟩, hquote, hbackslash⟩ := h c hc
  have hnat : (UInt8.ofNat c.toNat).toNat = c.toNat := by
    rw [UInt8.toNat_ofNat']
    omega
  have hne (d : Char) (hd : c ≠ d) (hdNat : d.toNat < 0x80) :
      UInt8.ofNat c.toNat ≠ UInt8.ofNat d.toNat := by
    intro heq
    have htoNat := congrArg UInt8.toNat heq
    rw [hnat, UInt8.toNat_ofNat', Nat.mod_eq_of_lt (by omega)] at htoNat
    exact hd (Char.toNat_inj.1 htoNat)
  refine ⟨hne '"' hquote (by decide), hne '\\' hbackslash (by decide), ?_⟩
  rw [UInt8.lt_iff_toNat_lt, hnat]
  exact Nat.not_lt.2 (Nat.le_of_lt hlow)

end IsBare

/-! ### Texts of lists and objects -/

/-- Texts that are written one after the other, each behind a margin, with commas between them. -/
theorem eq_joined {β : Type} {f : List β → Octets} {text : β → Octets} {margin gap : Octets}
    (lineEnd : Octets) (hgap : lineEnd ++ margin = gap) (hone : ∀ x, f [x] = margin ++ text x)
    (hmore : ∀ x y zs, f (x :: y :: zs) =
      margin ++ (text x ++ comma :: (lineEnd ++ f (y :: zs)))) (x : β) (xs : List β) :
    f (x :: xs) = margin ++ (text x ++ joined gap (xs.map text)) := by
  induction xs generalizing x with
  | nil => rw [hone, List.map_nil, joined, List.append_nil]
  | cons y xs ih => rw [hmore, ih, List.map_cons, joined, ← hgap, List.append_assoc]

theorem octets_pieces : "[".toUTF8.toList = [openList] ∧ "]".toUTF8.toList = [closeList] ∧
    "\x7b".toUTF8.toList = [openObject] ∧ "\x7d".toUTF8.toList = [closeObject] ∧
      ",".toUTF8.toList = [comma] ∧ ":".toUTF8.toList = [colon] ∧ "\n".toUTF8.toList = [0x0A] ∧
        "[\n".toUTF8.toList = [openList, 0x0A] ∧ "\x7b\n".toUTF8.toList = [openObject, 0x0A] ∧
          ",\n".toUTF8.toList = [comma, 0x0A] ∧ ": ".toUTF8.toList = [colon, 0x20] := by
  simp only [Text.toList_toUTF8]
  decide

theorem octets_empty : "[]".toUTF8.toList = [openList, closeList] ∧
    "\x7b\x7d".toUTF8.toList = [openObject, closeObject] := by
  simp only [Text.toList_toUTF8]
  decide

namespace Layout

def memberOctets (l : Layout) (m : String × Value) : Octets :=
  (quoted m.1).toUTF8.toList ++ colon :: (l.space ++ l.octets m.2)

theorem octets_compactItems (v : Value) (vs : List Value) :
    (Value.compactItems (v :: vs)).toUTF8.toList =
      [] ++ (compact.octets v ++ joined [] (vs.map compact.octets)) := by
  obtain ⟨-, -, -, -, hcomma, -⟩ := octets_pieces
  refine eq_joined (f := fun vs => (Value.compactItems vs).toUTF8.toList) [] rfl (fun x => rfl)
    (fun x y zs => ?_) v vs
  rw [Value.compactItems, Text.toUTF8_append, Text.toUTF8_append, hcomma, List.append_assoc]
  · rfl
  · exact List.cons_ne_nil y zs

theorem octets_prettyItems (depth : Nat) (v : Value) (vs : List Value) :
    (Value.prettyItems depth (v :: vs)).toUTF8.toList = (Value.margin depth).toUTF8.toList ++
      ((indented depth).octets v ++
        joined (indented depth).gap (vs.map (indented depth).octets)) := by
  obtain ⟨-, -, -, -, -, -, -, -, -, hcomma, -⟩ := octets_pieces
  refine eq_joined (f := fun vs => (Value.prettyItems depth vs).toUTF8.toList) [0x0A] rfl
    (fun x => ?_) (fun x y zs => ?_) v vs
  · rw [Value.prettyItems, Text.toUTF8_append]
    rfl
  · rw [Value.prettyItems, Text.toUTF8_append, Text.toUTF8_append, Text.toUTF8_append, hcomma,
      List.append_assoc, List.append_assoc]
    · rfl
    · exact List.cons_ne_nil y zs

theorem octets_compactMembers (m : String × Value) (ms : List (String × Value)) :
    (Value.compactMembers (m :: ms)).toUTF8.toList =
      [] ++ (compact.memberOctets m ++ joined [] (ms.map compact.memberOctets)) := by
  obtain ⟨-, -, -, -, hcomma, hcolon, -⟩ := octets_pieces
  refine eq_joined (f := fun ms => (Value.compactMembers ms).toUTF8.toList) [] rfl (fun x => ?_)
    (fun x y zs => ?_) m ms
  · rw [Value.compactMembers, Text.toUTF8_append, Text.toUTF8_append, hcolon, List.append_assoc]
    rfl
  · rw [Value.compactMembers, Text.toUTF8_append, Text.toUTF8_append, Text.toUTF8_append,
      Text.toUTF8_append, hcolon, hcomma]
    · simp [memberOctets, octets, write, space]
    · exact List.cons_ne_nil y zs

theorem octets_prettyMembers (depth : Nat) (m : String × Value) (ms : List (String × Value)) :
    (Value.prettyMembers depth (m :: ms)).toUTF8.toList = (Value.margin depth).toUTF8.toList ++
      ((indented depth).memberOctets m ++
        joined (indented depth).gap (ms.map (indented depth).memberOctets)) := by
  obtain ⟨-, -, -, -, -, -, -, -, -, hcomma, hcolon⟩ := octets_pieces
  refine eq_joined (f := fun ms => (Value.prettyMembers depth ms).toUTF8.toList) [0x0A] rfl
    (fun x => ?_) (fun x y zs => ?_) m ms
  · rw [Value.prettyMembers, Text.toUTF8_append, Text.toUTF8_append, Text.toUTF8_append, hcolon]
    simp [memberOctets, octets, write, space]
  · rw [Value.prettyMembers, Text.toUTF8_append, Text.toUTF8_append, Text.toUTF8_append,
      Text.toUTF8_append, Text.toUTF8_append, hcolon, hcomma]
    · simp [memberOctets, octets, write, space]
    · exact List.cons_ne_nil y zs

theorem octets_list (l : Layout) (v : Value) (vs : List Value) :
    l.octets (.list (v :: vs)) = openList :: (l.inner.gap ++ (l.inner.octets v ++
      (joined l.inner.gap (vs.map l.inner.octets) ++ (l.gap ++ [closeList])))) := by
  obtain ⟨hopen, hclose, -, -, -, -, hline, hopen', -⟩ := octets_pieces
  cases l with
  | compact =>
    show (Value.compact (.list (v :: vs))).toUTF8.toList = _
    rw [Value.compact, Text.toUTF8_append, Text.toUTF8_append, hopen, hclose, octets_compactItems]
    simp [inner, gap]
  | indented depth =>
    show (Value.pretty depth (.list (v :: vs))).toUTF8.toList = _
    rw [Value.pretty, Text.toUTF8_append, Text.toUTF8_append, Text.toUTF8_append,
      Text.toUTF8_append, hopen', hclose, hline, octets_prettyItems]
    · simp [inner, gap]
    · exact List.cons_ne_nil v vs

theorem octets_object (l : Layout) (m : String × Value) (ms : List (String × Value)) :
    l.octets (.object (m :: ms)) = openObject :: (l.inner.gap ++ (l.inner.memberOctets m ++
      (joined l.inner.gap (ms.map l.inner.memberOctets) ++ (l.gap ++ [closeObject])))) := by
  obtain ⟨-, -, hopen, hclose, -, -, hline, -, hopen', -⟩ := octets_pieces
  cases l with
  | compact =>
    show (Value.compact (.object (m :: ms))).toUTF8.toList = _
    rw [Value.compact, Text.toUTF8_append, Text.toUTF8_append, hopen, hclose,
      octets_compactMembers]
    simp [inner, gap]
  | indented depth =>
    show (Value.pretty depth (.object (m :: ms))).toUTF8.toList = _
    rw [Value.pretty, Text.toUTF8_append, Text.toUTF8_append, Text.toUTF8_append,
      Text.toUTF8_append, hopen', hclose, hline, octets_prettyMembers]
    · simp [inner, gap]
    · exact List.cons_ne_nil m ms

theorem octets_nil (l : Layout) : l.octets (.list []) = openList :: ([] ++ [closeList]) ∧
    l.octets (.object []) = openObject :: ([] ++ [closeObject]) := by
  cases l <;> exact octets_empty

theorem octets_index (l : Layout) (n : Nat) :
    l.octets (.index n) = (Nat.toDigits 10 n).map octetOf := by
  cases l with
  | compact =>
    show (Value.compact (.number (toString n))).toUTF8.toList = _
    rw [Value.compact, octets_toString]
  | indented depth =>
    show (Value.pretty depth (.number (toString n))).toUTF8.toList = _
    rw [Value.pretty, octets_toString]

theorem enclosed_list (l : Layout) {vs : List Value} {xs : List α}
    (h : List.Forall₂ (fun v x => item (l.inner.octets v) x) vs xs) :
    Enclosed item openList closeList (l.octets (.list vs)) xs := by
  cases h with
  | nil =>
    rw [l.octets_nil.1]
    exact .empty nofun
  | @cons v x vs xs hv hvs =>
    rw [octets_list]
    exact .items l.inner.blanks_gap hv
      (tail_joined l.inner.blanks_gap l.blanks_gap (List.forall₂_map_left_iff.2 hvs))

theorem enclosed_object (l : Layout) {ms : List (String × Value)} {xs : List α}
    (h : List.Forall₂ (fun m x => item (l.inner.memberOctets m) x) ms xs) :
    Enclosed item openObject closeObject (l.octets (.object ms)) xs := by
  cases h with
  | nil =>
    rw [l.octets_nil.2]
    exact .empty nofun
  | @cons m x ms xs hm hms =>
    rw [octets_object]
    exact .items l.inner.blanks_gap hm
      (tail_joined l.inner.blanks_gap l.blanks_gap (List.forall₂_map_left_iff.2 hms))

theorem member_memberOctets (l : Layout) {key : String} {v : Value} {value : Octets → Prop}
    (hkey : IsBare key) (hv : value (l.octets v)) :
    Member SpellsString value (l.memberOctets (key, v)) (word key, l.octets v) := by
  have hmember := Member.mk (spellsString_plain hkey.isPlain) blanks_nil l.blanks_space hv
  simpa only [memberOctets, hkey.octets_quoted, List.cons_append, List.nil_append] using hmember

end Layout

end CowArrays.Json
