import CowArrays.Proofs.Triplet.Grammar
import Mathlib.Logic.Relation

/-!
Reading a text is local to its lines. Whole lines before a text add their triplets, or their failure,
and raise the line numbers; white space at the ends of lines and of fields counts for nothing, and
neither do blank lines.
-/

namespace CowArrays

/-- The failure of a text behind so many lines. -/
def Failure.raise (k : Nat) : Failure → Failure
  | .parse line reason => .parse (line + k) reason
  | failure => failure

namespace Triplet

def Whole (text : Octets) : Prop := text = [] ∨ text.getLast? = some 0x0A

/-! ### Whole lines before a text -/

section Whole

variable {a b : Octets}

theorem Whole.of_cons {c : UInt8} (h : Whole (c :: a)) : (a = [] ∧ c = 0x0A) ∨ (a ≠ [] ∧ Whole a) := by
  rcases h with hnil | hlast
  · cases hnil
  cases a with
  | nil => exact .inl ⟨rfl, Option.some.inj hlast⟩
  | cons d a =>
    rw [List.getLast?_cons_cons] at hlast
    exact .inr ⟨List.cons_ne_nil d a, .inr hlast⟩

theorem lines_ne_nil (h : a ≠ []) : lines a ≠ [] := by
  cases a with
  | nil => exact absurd rfl h
  | cons c a =>
    rw [lines]
    split
    · exact List.cons_ne_nil _ _
    · split
      · exact List.cons_ne_nil _ _
      · exact List.cons_ne_nil _ _

/-- Whole lines stay what they are before any text, and there are as many as line ends. -/
theorem Whole.lines_append (h : Whole a) (b : Octets) :
    lines (a ++ b) = lines a ++ lines b ∧ (lines a).length = a.count 0x0A := by
  induction a with
  | nil => exact ⟨rfl, rfl⟩
  | cons c a ih =>
    rcases h.of_cons with ⟨rfl, rfl⟩ | ⟨hne, ha⟩
    · exact ⟨rfl, rfl⟩
    obtain ⟨happend, hlength⟩ := ih ha
    rw [List.cons_append, lines, lines, happend, List.count_cons]
    by_cases hc : c = 0x0A
    · simp [hc, hlength]
    · -- the octet joins the first of the lines behind it, which ends before the other text
      obtain ⟨line, rest, hlines⟩ := List.exists_cons_of_ne_nil (lines_ne_nil hne)
      rw [hlines] at hlength ⊢
      simp [hc, ← hlength]

theorem readLine_raise (number k : Nat) (line : Octets) :
    readLine (number + k) line = (readLine number line).mapError (Failure.raise k) := by
  unfold readLine
  split
  · rfl
  · dsimp only
    split
    · rfl
    · split
      · rfl
      · rfl

theorem readLines_raise (number k : Nat) (ls : List Octets) :
    readLines (number + k) ls = (readLines number ls).mapError (Failure.raise k) := by
  induction ls generalizing number with
  | nil => rfl
  | cons line ls ih =>
    rw [readLines_cons, readLines_cons, readLine_raise, Nat.add_right_comm, ih]
    cases readLine number line with
    | error failure => rfl
    | ok m =>
      cases m with
      | none => rfl
      | some t => cases readLines (number + 1) ls <;> rfl

theorem Whole.readAll_append (h : Whole a) (b : Octets) :
    readAll (a ++ b) = readAll a >>= fun ts =>
      (readAll b).mapError (Failure.raise (a.count 0x0A)) >>= fun us => .ok (ts ++ us) := by
  obtain ⟨happend, hlength⟩ := h.lines_append b
  rw [readAll, happend, readLines_append_eq, hlength, readLines_raise]
  rfl

end Whole

/-! ### White space in a line -/

theorem exists_last_of_mem {α : Type} {x : α} {xs : List α} (h : x ∈ xs) :
    ∃ front rest, xs = front ++ x :: rest ∧ x ∉ rest := by
  obtain ⟨rest, front, hsplit, hrest⟩ := List.eq_append_cons_of_mem (List.mem_reverse.2 h)
  refine ⟨front.reverse, rest.reverse, ?_, fun hmem => hrest (List.mem_reverse.1 hmem)⟩
  rw [← List.reverse_reverse xs, hsplit]
  simp

section Blanks

variable {ws cs cs' : List Char} {m : Option Triplet} {t : Triplet}

theorem fields_of_not_mem (h : ',' ∉ cs) : fields cs = [Text.trim cs] := by
  rw [fields, List.splitOn_eq_singleton h]
  rfl

theorem fields_append_comma (front rest : List Char) :
    fields (front ++ ',' :: rest) = fields front ++ fields rest := by
  rw [fields, List.splitOn_append_cons_self, List.map_append]
  rfl

theorem comma_not_mem_of_blank (h : ∀ c ∈ ws, Text.isBlank c = true) : ',' ∉ ws :=
  fun hmem => absurd (h _ hmem) (by decide)

/-- White space before a line is trimmed from its first field. -/
theorem fields_blank_append (h : ∀ c ∈ ws, Text.isBlank c = true) (cs : List Char) :
    fields (ws ++ cs) = fields cs := by
  have hws := comma_not_mem_of_blank h
  by_cases hcomma : ',' ∈ cs
  · obtain ⟨front, rest, rfl, hfront⟩ := List.eq_append_cons_of_mem hcomma
    have hboth : ',' ∉ ws ++ front := by simp [hws, hfront]
    rw [← List.append_assoc, fields_append_comma, fields_append_comma, fields_of_not_mem hboth,
      fields_of_not_mem hfront, Text.trim_blank_append h]
  · have hboth : ',' ∉ ws ++ cs := by simp [hws, hcomma]
    rw [fields_of_not_mem hboth, fields_of_not_mem hcomma, Text.trim_blank_append h]

theorem fields_append_blank (h : ∀ c ∈ ws, Text.isBlank c = true) (cs : List Char) :
    fields (cs ++ ws) = fields cs := by
  have hws := comma_not_mem_of_blank h
  by_cases hcomma : ',' ∈ cs
  · obtain ⟨front, rest, rfl, hrest⟩ := exists_last_of_mem hcomma
    have hboth : ',' ∉ rest ++ ws := by simp [hws, hrest]
    rw [List.append_assoc, List.cons_append, fields_append_comma, fields_append_comma,
      fields_of_not_mem hboth, fields_of_not_mem hrest, Text.trim_append_of_blank h]
  · have hboth : ',' ∉ cs ++ ws := by simp [hws, hcomma]
    rw [fields_of_not_mem hboth, fields_of_not_mem hcomma, Text.trim_append_of_blank h]

theorem fields_trim (cs : List Char) : fields (Text.trim cs) = fields cs := by
  obtain ⟨left, right, hcs, hleft, hright⟩ := (Text.trim_padded cs).around
  conv_rhs => rw [hcs, fields_blank_append hleft, fields_append_blank hright]

theorem trim_eq_nil_iff : Text.trim cs = [] ↔ fields cs = [[]] := by
  constructor
  · intro h
    rw [← fields_trim, h]
    rfl
  · intro h
    have hlength := length_fields cs
    rw [h] at hlength
    have hcomma : ',' ∉ cs := List.count_eq_zero.1 (Nat.succ.inj hlength).symm
    rw [fields_of_not_mem hcomma] at h
    exact (List.cons.inj h).1

theorem ofLine_congr (h : fields cs = fields cs') : ofLine cs = .ok t ↔ ofLine cs' = .ok t := by
  unfold ofLine
  rw [h]
  split
  · exact Iff.rfl
  · exact ⟨nofun, nofun⟩

/-- What a line says depends on its fields alone. -/
theorem lineSays_iff : LineSays (cs.flatMap String.utf8EncodeChar) m ↔
    m = none ∧ fields cs = [[]] ∨ ∃ t, m = some t ∧ ofLine cs = .ok t := by
  have hread : LineSays (cs.flatMap String.utf8EncodeChar) m ↔
    readLine 0 (cs.flatMap String.utf8EncodeChar) = .ok m := readLine_eq_ok_iff.symm
  rw [hread, readLine_text, ← trim_eq_nil_iff]
  simp only [← ofLine_congr (fields_trim cs)]
  by_cases hblank : Text.trim cs = []
  · rw [if_pos hblank, hblank]
    constructor
    · intro h
      exact .inl ⟨(Except.ok.inj h).symm, rfl⟩
    · rintro (⟨rfl, -⟩ | ⟨t, -, ht⟩)
      · rfl
      · cases ht
  · rw [if_neg hblank]
    cases ofLine (Text.trim cs) with
    | error fault => simp [hblank]
    | ok u => simp [hblank, eq_comm]

theorem lineSays_congr (h : fields cs = fields cs') : LineSays (cs.flatMap String.utf8EncodeChar) m ↔
    LineSays (cs'.flatMap String.utf8EncodeChar) m := by
  simp only [lineSays_iff, h, ofLine_congr h]

theorem lineSays_blank_iff (h : ∀ c ∈ ws, Text.isBlank c = true) :
    LineSays (ws.flatMap String.utf8EncodeChar) m ↔ m = none := by
  have hfields : fields ws = fields [] := by
    rw [← List.append_nil ws]
    exact fields_blank_append h []
  rw [lineSays_congr hfields, lineSays_iff]
  constructor
  · rintro (⟨hm, -⟩ | ⟨t, -, ht⟩)
    · exact hm
    · cases ht
  · exact fun hm => .inl ⟨hm, rfl⟩

end Blanks

/-- A place in a line where white space counts for nothing: at its ends, and next to a comma. -/
inductive Gap : Octets → Octets → Prop
  | start (y : Octets) : Gap [] y
  | stop (x : Octets) : Gap x []
  | behind (x y : Octets) : Gap (x ++ [0x2C]) y
  | before (x y : Octets) : Gap x (0x2C :: y)

section Gaps

variable {x y : Octets} {ws cs xs ys : List Char} {m : Option Triplet}

theorem utf8EncodeChar_comma : String.utf8EncodeChar ',' = [0x2C] := by decide

/-- A comma is a character, so the text of a line can be cut there. -/
theorem Gap.texts (h : Gap x y) (hcs : cs.flatMap String.utf8EncodeChar = x ++ y) :
    ∃ xs ys : List Char, x = xs.flatMap String.utf8EncodeChar ∧
      y = ys.flatMap String.utf8EncodeChar := by
  cases h with
  | start => exact ⟨[], cs, rfl, hcs.symm⟩
  | stop => exact ⟨cs, [], by rw [hcs, List.append_nil], rfl⟩
  | behind x y =>
    rw [List.append_assoc, ← utf8EncodeChar_comma] at hcs
    obtain ⟨front, rest, -, rfl, rfl⟩ := Text.exists_of_utf8_append hcs
    exact ⟨front ++ [','], rest, by simp [utf8EncodeChar_comma], rfl⟩
  | before x y =>
    rw [← List.singleton_append, ← utf8EncodeChar_comma] at hcs
    obtain ⟨front, rest, -, rfl, rfl⟩ := Text.exists_of_utf8_append hcs
    exact ⟨front, ',' :: rest, rfl, by simp [utf8EncodeChar_comma]⟩

theorem eq_nil_of_utf8 (h : cs.flatMap String.utf8EncodeChar = []) : cs = [] := by
  cases cs with
  | nil => rfl
  | cons c cs => simp [String.utf8EncodeChar_ne_nil] at h

theorem Gap.fields_eq
    (h : Gap (xs.flatMap String.utf8EncodeChar) (ys.flatMap String.utf8EncodeChar))
    (hws : ∀ c ∈ ws, Text.isBlank c = true) : fields (xs ++ (ws ++ ys)) = fields (xs ++ ys) := by
  generalize hx : xs.flatMap String.utf8EncodeChar = x at h
  generalize hy : ys.flatMap String.utf8EncodeChar = y at h
  cases h with
  | start =>
    obtain rfl := eq_nil_of_utf8 hx
    exact fields_blank_append hws ys
  | stop =>
    obtain rfl := eq_nil_of_utf8 hy
    rw [List.append_nil, List.append_nil, fields_append_blank hws]
  | behind x y =>
    rw [← utf8EncodeChar_comma, ← List.append_nil (String.utf8EncodeChar ',')] at hx
    obtain ⟨front, rest, rfl, -, hrest⟩ := Text.exists_of_utf8_append hx
    obtain rfl := eq_nil_of_utf8 hrest.symm
    simp only [List.append_assoc, List.cons_append, List.nil_append]
    rw [fields_append_comma, fields_append_comma, fields_blank_append hws]
  | before x y =>
    have hcomma : ys.flatMap String.utf8EncodeChar = [','].flatMap String.utf8EncodeChar ++ y := by
      rw [hy, List.flatMap_singleton, utf8EncodeChar_comma]
      rfl
    obtain ⟨rest, rfl, -⟩ := Text.utf8_append_left hcomma
    rw [List.singleton_append, ← List.append_assoc, fields_append_comma, fields_append_comma,
      fields_append_blank hws]

theorem LineSays.exists_text {line : Octets} (h : LineSays line m) :
    ∃ cs : List Char, line = cs.flatMap String.utf8EncodeChar := by
  cases h with
  | blank h => exact ⟨_, rfl⟩
  | triplet trimmed h => exact ⟨_, rfl⟩

/-- White space there changes nothing about a line, and a line that is no text stays none. -/
theorem Gap.lineSays_iff (h : Gap x y) (hws : ∀ c ∈ ws, Text.isBlank c = true) :
    LineSays (x ++ (ws.flatMap String.utf8EncodeChar ++ y)) m ↔ LineSays (x ++ y) m := by
  by_cases hnil : ws = []
  · rw [hnil]
    exact Iff.rfl
  by_cases htexts : ∃ xs ys : List Char, x = xs.flatMap String.utf8EncodeChar ∧
      y = ys.flatMap String.utf8EncodeChar
  · obtain ⟨xs, ys, rfl, rfl⟩ := htexts
    rw [← List.flatMap_append, ← List.flatMap_append, ← List.flatMap_append]
    exact lineSays_congr (h.fields_eq hws)
  · -- a part that is no text makes the line none, with the white space and without
    refine iff_of_false (fun hsays => ?_) fun hsays => ?_
    · obtain ⟨cs, hcs⟩ := hsays.exists_text
      obtain ⟨xs, ys, -, hxs, hys⟩ := Text.exists_of_utf8_insert hnil hcs.symm
      exact htexts ⟨xs, ys, hxs, hys⟩
    · obtain ⟨cs, hcs⟩ := hsays.exists_text
      exact htexts (h.texts hcs.symm)

end Gaps

/-! ### Texts that say the same -/

/-- Whether two texts are both accepted, with the same triplets, or both refused. -/
def Same (a b : Octets) : Prop := ∀ ts, readAll a = .ok ts ↔ readAll b = .ok ts

section Same

variable {a b b' line line' rest : Octets} {ts : List Triplet}

theorem Whole.readAll_append_eq_ok (h : Whole a) : readAll (a ++ b) = .ok ts ↔
    ∃ us vs, readAll a = .ok us ∧ readAll b = .ok vs ∧ ts = us ++ vs := by
  rw [h.readAll_append]
  cases readAll a with
  | error failure => simp
  | ok us =>
    cases readAll b with
    | error failure => simp [Except.mapError]
    | ok vs => simp [Except.mapError, eq_comm]

theorem Same.append (h : Whole a) (hb : Same b b') : Same (a ++ b) (a ++ b') := by
  intro ts
  rw [h.readAll_append_eq_ok, h.readAll_append_eq_ok]
  simp only [hb _]

theorem reduceOption_cons (m : Option Triplet) (ms : List (Option Triplet)) :
    (m :: ms).reduceOption = m.toList ++ ms.reduceOption := by
  cases m <;> rfl

/-- The first line of a text, and the lines behind it. -/
theorem readAll_ended_eq_ok (whole : 0x0A ∉ line) : readAll (line ++ 0x0A :: rest) = .ok ts ↔
    ∃ m us, LineSays line m ∧ readAll rest = .ok us ∧ ts = m.toList ++ us := by
  rw [readAll, lines_append whole]
  simp only [readAll, readLines_eq_ok_iff]
  constructor
  · rintro ⟨ms, hms, rfl⟩
    obtain ⟨m, ms, hm, hrest, rfl⟩ := List.forall₂_cons_left_iff.1 hms
    exact ⟨m, _, hm, ⟨ms, hrest, rfl⟩, reduceOption_cons m ms⟩
  · rintro ⟨m, us, hm, ⟨ms, hrest, rfl⟩, rfl⟩
    exact ⟨m :: ms, .cons hm hrest, (reduceOption_cons m ms).symm⟩

theorem readAll_line_eq_ok (whole : 0x0A ∉ line) :
    readAll line = .ok ts ↔ ∃ m, LineSays line m ∧ ts = m.toList := by
  by_cases hnil : line = []
  · have hblank (m : Option Triplet) : LineSays [] m ↔ m = none :=
      lineSays_blank_iff fun c hc => absurd hc List.not_mem_nil
    simp only [hnil, hblank, exists_eq_left]
    exact ⟨fun h => (Except.ok.inj h).symm, fun h => congrArg Except.ok h.symm⟩
  · rw [readAll, lines_of_not_mem hnil whole, readLines_eq_ok_iff]
    constructor
    · rintro ⟨ms, hms, rfl⟩
      obtain ⟨m, ms, hm, hrest, rfl⟩ := List.forall₂_cons_left_iff.1 hms
      obtain rfl := List.forall₂_nil_left_iff.1 hrest
      exact ⟨m, hm, by cases m <;> rfl⟩
    · rintro ⟨m, hm, rfl⟩
      exact ⟨[m], .cons hm .nil, by cases m <;> rfl⟩

/-- Lines that say the same can take each other's place. -/
theorem Same.of_line (whole : 0x0A ∉ line) (whole' : 0x0A ∉ line')
    (h : ∀ m, LineSays line m ↔ LineSays line' m) (hb : b = [] ∨ b.head? = some 0x0A) :
    Same (line ++ b) (line' ++ b) := by
  intro ts
  cases b with
  | nil =>
    rw [List.append_nil, List.append_nil, readAll_line_eq_ok whole, readAll_line_eq_ok whole']
    simp only [h]
  | cons c b =>
    obtain rfl : c = 0x0A := by simpa using hb
    rw [readAll_ended_eq_ok whole, readAll_ended_eq_ok whole']
    simp only [h]

/-- A text is whole lines and then part of a line. -/
theorem exists_whole_append (a : Octets) : ∃ before x, a = before ++ x ∧ Whole before ∧ 0x0A ∉ x := by
  by_cases hend : 0x0A ∈ a
  · obtain ⟨front, rest, rfl, hrest⟩ := exists_last_of_mem hend
    exact ⟨front ++ [0x0A], rest, by simp, .inr (by simp), hrest⟩
  · exact ⟨[], a, rfl, .inl rfl, hend⟩

theorem exists_line_append (b : Octets) :
    ∃ y behind, b = y ++ behind ∧ 0x0A ∉ y ∧ (behind = [] ∨ behind.head? = some 0x0A) := by
  by_cases hend : 0x0A ∈ b
  · obtain ⟨front, rest, rfl, hfront⟩ := List.eq_append_cons_of_mem hend
    exact ⟨front, 0x0A :: rest, rfl, hfront, .inr rfl⟩
  · exact ⟨b, [], by simp, hend, .inl rfl⟩

end Same

/-! ### Texts in another form -/

/-- A place in a text where white space counts for nothing: where a line starts, where it ends, and
next to a comma. -/
inductive Edge (a b : Octets) : Prop
  | lineStart (h : Whole a)
  | lineEnd (h : b = [] ∨ b.head? = some 0x0A)
  | behindComma (h : a.getLast? = some 0x2C)
  | beforeComma (h : b.head? = some 0x2C)

/-- One step from a text to another form of it. -/
inductive Reformats : Octets → Octets → Prop
  /-- A line ends with a carriage return. -/
  | carriageReturn (a b : Octets) : Reformats (a ++ 0x0A :: b) (a ++ 0x0D :: 0x0A :: b)
  /-- There is a line of white space between two others, or before the first one. -/
  | blankLine {a b : Octets} {ws : List Char} (between : Whole a)
      (blank : ∀ c ∈ ws, Text.isBlank c = true ∧ c ≠ '\n') :
      Reformats (a ++ b) (a ++ (ws.flatMap String.utf8EncodeChar ++ 0x0A :: b))
  /-- There is one behind the last line. -/
  | lastLine {a : Octets} {ws : List Char}
      (blank : ∀ c ∈ ws, Text.isBlank c = true ∧ c ≠ '\n') :
      Reformats a (a ++ 0x0A :: ws.flatMap String.utf8EncodeChar)
  /-- There is white space around a line or a field. -/
  | spaces {a b : Octets} {ws : List Char} (edge : Edge a b)
      (blank : ∀ c ∈ ws, Text.isBlank c = true ∧ c ≠ '\n') :
      Reformats (a ++ b) (a ++ (ws.flatMap String.utf8EncodeChar ++ b))

section Forms

variable {a b x y before behind : Octets} {ws : List Char}

theorem Edge.gap (h : Edge (before ++ x) (y ++ behind)) (hbefore : Whole before) (hx : 0x0A ∉ x)
    (hy : 0x0A ∉ y) (hbehind : behind = [] ∨ behind.head? = some 0x0A) : Gap x y := by
  cases h with
  | lineStart h =>
    -- the last octet is a line end, and there is none in this line
    rcases List.eq_nil_or_concat' x with rfl | ⟨front, c, rfl⟩
    · exact .start y
    · rcases h with hnil | hlast
      · simp at hnil
      · rw [← List.append_assoc, List.getLast?_concat] at hlast
        simp [Option.some.inj hlast] at hx
  | lineEnd h =>
    cases y with
    | nil => exact .stop x
    | cons c y =>
      obtain rfl : c = 0x0A := by simpa using h
      simp at hy
  | behindComma h =>
    rcases List.eq_nil_or_concat' x with rfl | ⟨front, c, rfl⟩
    · rw [List.append_nil] at h
      rcases hbefore with rfl | hlast
      · cases h
      · cases h.symm.trans hlast
    · rw [← List.append_assoc, List.getLast?_concat] at h
      obtain rfl := Option.some.inj h
      exact .behind front y
  | beforeComma h =>
    cases y with
    | nil =>
      rcases hbehind with rfl | hend
      · cases h
      · cases h.symm.trans hend
    | cons c y =>
      obtain rfl : c = 0x2C := by simpa using h
      exact .before x y

theorem lineEnd_not_mem_blank (blank : ∀ c ∈ ws, Text.isBlank c = true ∧ c ≠ '\n') :
    0x0A ∉ ws.flatMap String.utf8EncodeChar :=
  fun hmem => (blank '\n' (Text.mem_of_utf8 (by decide) hmem)).2 rfl

theorem Edge.same (h : Edge a b) (blank : ∀ c ∈ ws, Text.isBlank c = true ∧ c ≠ '\n') :
    Same (a ++ b) (a ++ (ws.flatMap String.utf8EncodeChar ++ b)) := by
  -- only the line matters that the place is in, and what is before and behind it stays
  obtain ⟨before, x, rfl, hbefore, hx⟩ := exists_whole_append a
  obtain ⟨y, behind, rfl, hy, hbehind⟩ := exists_line_append b
  have hws := lineEnd_not_mem_blank blank
  have hgap := h.gap hbefore hx hy hbehind
  have hline : 0x0A ∉ x ++ y := by simp [hx, hy]
  have hspaced : 0x0A ∉ x ++ (ws.flatMap String.utf8EncodeChar ++ y) := by
    simp only [List.mem_append, hx, hws, hy, or_self, not_false_iff]
  have hsame := Same.of_line hline hspaced
    (fun m => (hgap.lineSays_iff fun c hc => (blank c hc).1).symm) hbehind
  simpa only [List.append_assoc] using Same.append hbefore hsame

/-- Texts in another form say the same. -/
theorem Reformats.same (h : Reformats a b) : Same a b := by
  cases h with
  | carriageReturn a b =>
    have hreturn : String.utf8EncodeChar '\r' = [0x0D] := by decide
    have hedge : Edge a (0x0A :: b) := .lineEnd (.inr rfl)
    have hblank : ∀ c ∈ ['\r'], Text.isBlank c = true ∧ c ≠ '\n' :=
      List.forall_mem_cons.2 ⟨⟨rfl, by decide⟩, nofun⟩
    have hsame := hedge.same hblank
    rwa [List.flatMap_singleton, hreturn] at hsame
  | @blankLine a b ws between blank =>
    refine Same.append between fun ts => ?_
    rw [readAll_ended_eq_ok (lineEnd_not_mem_blank blank)]
    simp only [lineSays_blank_iff fun c hc => (blank c hc).1]
    simp
  | @lastLine a ws blank =>
    obtain ⟨before, x, rfl, hbefore, hx⟩ := exists_whole_append a
    rw [List.append_assoc]
    have hws := lineEnd_not_mem_blank blank
    have hsame : Same x (x ++ 0x0A :: ws.flatMap String.utf8EncodeChar) := by
      intro ts
      rw [readAll_line_eq_ok hx, readAll_ended_eq_ok hx]
      simp only [readAll_line_eq_ok hws, lineSays_blank_iff fun c hc => (blank c hc).1]
      simp
    exact Same.append hbefore hsame
  | spaces edge blank => exact edge.same blank

theorem same_of_eqvGen (h : Relation.EqvGen Reformats a b) : Same a b := by
  induction h with
  | rel a b h => exact h.same
  | refl a => exact fun ts => Iff.rfl
  | symm a b _ ih => exact fun ts => (ih ts).symm
  | trans a b c _ _ hab hbc => exact fun ts => (hab ts).trans (hbc ts)

end Forms

/-- What the reading of two texts says about other texts. -/
structure ReadsLocally (a b : Octets) : Prop where
  /-- A text that fails does so whatever comes behind its lines. -/
  failed : Whole a → ∀ failure, readAll a = .error failure → readAll (a ++ b) = .error failure
  joined : Whole a → ∀ ts us, readAll a = .ok ts → readAll b = .ok us →
    readAll (a ++ b) = .ok (ts ++ us)
  /-- Lines are numbered from the first one of the whole text. -/
  raised : Whole a → ∀ ts failure, readAll a = .ok ts → readAll b = .error failure →
    readAll (a ++ b) = .error (failure.raise (a.count 0x0A))
  /-- White space, carriage returns and blank lines count for nothing, however many there are. -/
  reformatted : Relation.EqvGen Reformats a b → ∀ ts, readAll a = .ok ts ↔ readAll b = .ok ts

theorem readAll_local (a b : Octets) : ReadsLocally a b := by
  constructor
  case failed =>
    intro h failure ha
    rw [h.readAll_append, ha, Attempt.error_bind]
  case joined =>
    intro h ts us ha hb
    exact h.readAll_append_eq_ok.2 ⟨ts, us, ha, hb, rfl⟩
  case raised =>
    intro h ts failure ha hb
    rw [h.readAll_append, ha, hb]
    rfl
  case reformatted => exact fun h => same_of_eqvGen h

end Triplet
end CowArrays
