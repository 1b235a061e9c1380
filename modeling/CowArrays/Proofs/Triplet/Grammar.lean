import CowArrays.Proofs.Text.Indices
import CowArrays.Proofs.Text.Literals
import CowArrays.Proofs.Text.Trimming
import CowArrays.Proofs.Triplet.Faults
import CowArrays.Proofs.Triplet.Lines
import Mathlib.Data.List.Forall2
import Mathlib.Data.List.ReduceOption

/-!
The grammar of triplet texts. A line is blank or it says a triplet, and a text is accepted where
each of its lines does; otherwise the first line that offends decides, and nothing behind it counts.
-/

namespace CowArrays.Triplet

open Text (Padded)

/-- Three parts of a line without commas, and what is left of them without white space around. -/
inductive ThreeFields : List Char → List Char → List Char → List Char → Prop
  | intro {a b c row col value : List Char} (ha : ',' ∉ a) (hb : ',' ∉ b) (hc : ',' ∉ c)
      (trimmedRow : Padded row a) (trimmedCol : Padded col b) (trimmedValue : Padded value c) :
      ThreeFields (a ++ ',' :: (b ++ ',' :: c)) row col value

/-- Trimmed lines that say a triplet. -/
inductive SpellsTriplet : List Char → Triplet → Prop
  | intro {body row col value : List Char} {i j : Nat} {l : Literal}
      (split : ThreeFields body row col value) (hrow : SpellsIndex row i) (hcol : SpellsIndex col j)
      (hvalue : SpellsLiteral value l) : SpellsTriplet body ⟨i, j, .ofLiteral l⟩

/-- Trimmed lines that do not, with the first thing that is wrong: the number of fields, the row,
the column or the value. -/
inductive MisspellsTriplet : List Char → LineFault → Prop
  | fields {body : List Char} (commas : body.count ',' ≠ 2) : MisspellsTriplet body (.fields body)
  | row {body row col value : List Char} {fault : IndexFault}
      (split : ThreeFields body row col value) (hrow : MisspellsIndex row fault) :
      MisspellsTriplet body (.row row fault)
  | column {body row col value : List Char} {i : Nat} {fault : IndexFault}
      (split : ThreeFields body row col value) (hrow : SpellsIndex row i)
      (hcol : MisspellsIndex col fault) : MisspellsTriplet body (.column col fault)
  | value {body row col value : List Char} {i j : Nat}
      (split : ThreeFields body row col value) (hrow : SpellsIndex row i) (hcol : SpellsIndex col j)
      (hvalue : ∀ l, ¬SpellsLiteral value l) : MisspellsTriplet body (.value value)

/-- Lines that are accepted: text that is blank, or that says a triplet once it is trimmed. -/
inductive LineSays : Octets → Option Triplet → Prop
  | blank {cs : List Char} (h : Padded [] cs) : LineSays (cs.flatMap String.utf8EncodeChar) none
  | triplet {cs body : List Char} {t : Triplet} (trimmed : Padded body cs)
      (h : SpellsTriplet body t) : LineSays (cs.flatMap String.utf8EncodeChar) (some t)

/-- Lines that are not, with the failure that they cause as the line of a number. -/
inductive Offends (number : Nat) : Octets → Failure → Prop
  | notText {line : Octets} (h : ∀ cs : List Char, line ≠ cs.flatMap String.utf8EncodeChar) :
      Offends number line (.stream .notText)
  | misspelled {cs body : List Char} {fault : LineFault} (trimmed : Padded body cs)
      (nonempty : body ≠ []) (h : MisspellsTriplet body fault) :
      Offends number (cs.flatMap String.utf8EncodeChar) (.parse number fault.reason)

/-- A line without the carriage return that stood directly before its end. -/
def dropReturn (line : Octets) : Octets :=
  if line.getLast? = some 0x0D then line.dropLast else line

/-- The lines of a text: each up to its end, and what follows the last end if that is anything. -/
inductive Lines : Octets → List Octets → Prop
  | none : Lines [] []
  | unended {line : Octets} (nonempty : line ≠ []) (whole : 0x0A ∉ line) : Lines line [line]
  | ended {line rest : Octets} {ls : List Octets} (whole : 0x0A ∉ line) (h : Lines rest ls) :
      Lines (line ++ 0x0A :: rest) (dropReturn line :: ls)

/-! ### Fields -/

section Fields

variable {body row col value : List Char}

theorem splitOn_eq_cons {a : List Char} {parts : List (List Char)}
    (h : body.splitOn ',' = a :: parts) : ',' ∉ a ∧ (parts = [] ∧ body = a ∨
      ∃ rest, body = a ++ ',' :: rest ∧ rest.splitOn ',' = parts) := by
  by_cases hcomma : ',' ∈ body
  · obtain ⟨front, rest, rfl, hfront⟩ := List.eq_append_cons_of_mem hcomma
    rw [List.splitOn_append_cons_self_of_not_mem hfront] at h
    obtain ⟨rfl, hparts⟩ := List.cons.inj h
    exact ⟨hfront, .inr ⟨rest, rfl, hparts⟩⟩
  · rw [List.splitOn_eq_singleton hcomma] at h
    obtain ⟨rfl, hparts⟩ := List.cons.inj h
    exact ⟨hcomma, .inl ⟨hparts.symm, rfl⟩⟩

theorem length_fields (body : List Char) : (fields body).length = body.count ',' + 1 := by
  rw [fields, List.length_map]
  induction body with
  | nil => rfl
  | cons c body ih =>
    rw [List.splitOn_cons_eq_if_modifyHead, List.count_cons]
    cases c == ',' with
    | true => simp [ih]
    | false => simp [ih]

theorem fields_eq_iff : fields body = [row, col, value] ↔ ThreeFields body row col value := by
  constructor
  · intro h
    obtain ⟨a, behind, hsplit, rfl, hbehind⟩ := List.map_eq_cons_iff.1 h
    obtain ⟨b, last, rfl, rfl, hlast⟩ := List.map_eq_cons_iff.1 hbehind
    obtain ⟨c, nothing, rfl, rfl, hnothing⟩ := List.map_eq_cons_iff.1 hlast
    obtain rfl := List.map_eq_nil_iff.1 hnothing
    obtain ⟨ha, ⟨hnil, -⟩ | ⟨rest, rfl, hrest⟩⟩ := splitOn_eq_cons hsplit
    · cases hnil
    obtain ⟨hb, ⟨hnil, -⟩ | ⟨third, rfl, hthird⟩⟩ := splitOn_eq_cons hrest
    · cases hnil
    obtain ⟨hc, ⟨-, rfl⟩ | ⟨more, -, hmore⟩⟩ := splitOn_eq_cons hthird
    · exact .intro ha hb hc (Text.trim_padded a) (Text.trim_padded b) (Text.trim_padded _)
    · exact absurd hmore (List.splitOn_ne_nil _ _)
  · rintro ⟨ha, hb, hc, hrow, hcol, hvalue⟩
    rw [fields, List.splitOn_append_cons_self_of_not_mem ha,
      List.splitOn_append_cons_self_of_not_mem hb, List.splitOn_eq_singleton hc]
    simp only [List.map_cons, List.map_nil, hrow.trim_eq, hcol.trim_eq, hvalue.trim_eq]

/-- Two commas make three fields, and no other number does. -/
theorem fields_cases (body : List Char) : body.count ',' ≠ 2 ∨
    ∃ row col value, ThreeFields body row col value := by
  by_cases hcount : body.count ',' = 2
  · right
    have hlength := length_fields body
    rw [hcount] at hlength
    obtain ⟨row, col, value, h⟩ := List.length_eq_three.1 hlength
    exact ⟨row, col, value, fields_eq_iff.1 h⟩
  · exact .inl hcount

theorem ThreeFields.count (h : ThreeFields body row col value) : body.count ',' = 2 := by
  have hlength := length_fields body
  rw [fields_eq_iff.2 h] at hlength
  exact (Nat.succ.inj hlength).symm

end Fields

/-! ### Trimmed lines -/

section Trimmed

variable {body row col value : List Char} {i j : Nat} {t : Triplet} {fault : LineFault}

theorem ofLine_of_count (h : body.count ',' ≠ 2) : ofLine body = .error (.fields body) := by
  unfold ofLine
  split
  · rename_i hfields
    exact absurd (fields_eq_iff.1 hfields).count h
  · rfl

theorem ofLine_of_row (split : ThreeFields body row col value) {wrong : IndexFault}
    (hrow : readIndex row = .error wrong) : ofLine body = .error (.row row wrong) := by
  rw [ofLine, fields_eq_iff.2 split]
  simp only [hrow]
  rfl

theorem ofLine_of_column (split : ThreeFields body row col value) {wrong : IndexFault}
    (hrow : readIndex row = .ok i) (hcol : readIndex col = .error wrong) :
    ofLine body = .error (.column col wrong) := by
  rw [ofLine, fields_eq_iff.2 split]
  simp only [hrow, hcol]
  rfl

theorem ofLine_of_value (split : ThreeFields body row col value)
    (hrow : readIndex row = .ok i) (hcol : readIndex col = .ok j)
    (hvalue : Literal.read value = none) : ofLine body = .error (.value value) := by
  rw [ofLine, fields_eq_iff.2 split]
  simp only [hrow, hcol, hvalue]
  rfl

theorem ofLine_of_literal (split : ThreeFields body row col value) {l : Literal}
    (hrow : readIndex row = .ok i) (hcol : readIndex col = .ok j)
    (hvalue : Literal.read value = some l) : ofLine body = .ok ⟨i, j, .ofLiteral l⟩ := by
  rw [ofLine, fields_eq_iff.2 split]
  simp only [hrow, hcol, hvalue]
  rfl

/-- A trimmed line is right, or something in it is the first thing that is wrong. -/
theorem trimmed_cases (body : List Char) :
    (∃ t, SpellsTriplet body t) ∨ ∃ fault, MisspellsTriplet body fault := by
  rcases fields_cases body with hcount | ⟨row, col, value, split⟩
  · exact .inr ⟨_, .fields hcount⟩
  cases hrow : readIndex row with
  | error wrong => exact .inr ⟨_, .row split (readIndex_eq_error_iff.1 hrow)⟩
  | ok i =>
    have spellsRow := readIndex_eq_ok_iff.1 hrow
    cases hcol : readIndex col with
    | error wrong => exact .inr ⟨_, .column split spellsRow (readIndex_eq_error_iff.1 hcol)⟩
    | ok j =>
      have spellsCol := readIndex_eq_ok_iff.1 hcol
      by_cases hvalue : ∃ l, SpellsLiteral value l
      · obtain ⟨l, hl⟩ := hvalue
        exact .inl ⟨_, .intro split spellsRow spellsCol hl⟩
      · exact .inr ⟨_, .value split spellsRow spellsCol fun l hl => hvalue ⟨l, hl⟩⟩

theorem SpellsTriplet.ofLine_eq (h : SpellsTriplet body t) : ofLine body = .ok t := by
  obtain ⟨split, hrow, hcol, hvalue⟩ := h
  exact ofLine_of_literal split (readIndex_eq_ok_iff.2 hrow) (readIndex_eq_ok_iff.2 hcol)
    (Literal.read_eq_some_iff.2 hvalue)

theorem MisspellsTriplet.ofLine_eq (h : MisspellsTriplet body fault) :
    ofLine body = .error fault := by
  cases h with
  | fields commas => exact ofLine_of_count commas
  | row split hrow => exact ofLine_of_row split (readIndex_eq_error_iff.2 hrow)
  | column split hrow hcol =>
    exact ofLine_of_column split (readIndex_eq_ok_iff.2 hrow) (readIndex_eq_error_iff.2 hcol)
  | value split hrow hcol hvalue =>
    have hnone := Option.eq_none_iff_forall_ne_some.2 fun l h =>
      hvalue l (Literal.read_eq_some_iff.1 h)
    exact ofLine_of_value split (readIndex_eq_ok_iff.2 hrow) (readIndex_eq_ok_iff.2 hcol) hnone

theorem SpellsTriplet.ne_nil (h : SpellsTriplet body t) : body ≠ [] := by
  rintro rfl
  cases h with
  | intro split => cases split.count

theorem SpellsTriplet.lt (h : SpellsTriplet body t) : t.row < indexLimit ∧ t.col < indexLimit := by
  cases h with
  | intro split hrow hcol hvalue => exact ⟨hrow.lt, hcol.lt⟩

end Trimmed

/-! ### Lines -/

section Lines

variable {number : Nat} {line : Octets} {m : Option Triplet} {failure : Failure}

theorem readLine_text (number : Nat) (cs : List Char) :
    readLine number (cs.flatMap String.utf8EncodeChar) = if Text.trim cs = [] then .ok none
      else match ofLine (Text.trim cs) with
        | .ok t => .ok (some t)
        | .error fault => .error (.parse number fault.reason) := by
  obtain ⟨s, rfl⟩ : ∃ s : String, s.toList = cs := ⟨.ofList cs, String.toList_ofList⟩
  have hdecode := (Text.fromUTF8?_eq_some_iff (s := s)).2 rfl
  rw [readLine]
  split
  · rename_i hnone
    rw [hdecode] at hnone
    cases hnone
  · rename_i hsome
    obtain rfl := Option.some.inj (hdecode.symm.trans hsome)
    rfl

theorem LineSays.readLine_eq (h : LineSays line m) : readLine number line = .ok m := by
  cases h with
  | blank h => rw [readLine_text, h.trim_eq, if_pos rfl]
  | triplet trimmed h => rw [readLine_text, trimmed.trim_eq, if_neg h.ne_nil, h.ofLine_eq]

theorem Offends.readLine_eq (h : Offends number line failure) :
    readLine number line = .error failure := by
  cases h with
  | notText h =>
    have hnone := Option.eq_none_iff_forall_ne_some.2 fun s hs =>
      h s.toList (Text.fromUTF8?_eq_some_iff.1 hs)
    rw [readLine, hnone]
  | misspelled trimmed nonempty h =>
    rw [readLine_text, trimmed.trim_eq, if_neg nonempty, h.ofLine_eq]

theorem line_cases (number : Nat) (line : Octets) :
    (∃ m, LineSays line m) ∨ ∃ failure, Offends number line failure := by
  by_cases hdecodes : ∃ cs : List Char, line = cs.flatMap String.utf8EncodeChar
  · obtain ⟨cs, rfl⟩ := hdecodes
    have trimmed := Text.trim_padded cs
    by_cases hblank : Text.trim cs = []
    · rw [hblank] at trimmed
      exact .inl ⟨none, .blank trimmed⟩
    · rcases trimmed_cases (Text.trim cs) with ⟨t, h⟩ | ⟨fault, h⟩
      · exact .inl ⟨some t, .triplet trimmed h⟩
      · exact .inr ⟨_, .misspelled trimmed hblank h⟩
  · exact .inr ⟨_, .notText fun cs hcs => hdecodes ⟨cs, hcs⟩⟩

theorem readLine_eq_ok_iff : readLine number line = .ok m ↔ LineSays line m := by
  constructor
  · intro h
    rcases line_cases number line with ⟨m', hm⟩ | ⟨failure, hfailure⟩
    · obtain rfl := Except.ok.inj (hm.readLine_eq.symm.trans h)
      exact hm
    · cases hfailure.readLine_eq.symm.trans h
  · exact LineSays.readLine_eq

/-- A carriage return behind a line changes nothing, since it is white space where the line is text,
and leaves what is before it no text where the line is none. -/
theorem readLine_append_return (number : Nat) (line : Octets) :
    readLine number (line ++ [0x0D]) = readLine number line := by
  have hreturn : String.utf8EncodeChar '\r' = [0x0D] := by decide
  by_cases hdecodes : ∃ cs : List Char, line = cs.flatMap String.utf8EncodeChar
  · obtain ⟨cs, rfl⟩ := hdecodes
    have hblank : ∀ c ∈ ['\r'], Text.isBlank c = true := List.forall_mem_cons.2 ⟨rfl, nofun⟩
    have happend : cs.flatMap String.utf8EncodeChar ++ [0x0D] =
        (cs ++ ['\r']).flatMap String.utf8EncodeChar := by
      rw [List.flatMap_append, List.flatMap_singleton, hreturn]
    rw [happend, readLine_text, readLine_text, Text.trim_append_of_blank hblank]
  · have hnot : ∀ cs : List Char, line ≠ cs.flatMap String.utf8EncodeChar :=
      fun cs hcs => hdecodes ⟨cs, hcs⟩
    have hnot' : ∀ cs : List Char, line ++ [0x0D] ≠ cs.flatMap String.utf8EncodeChar := by
      intro cs hcs
      rw [← hreturn, ← List.append_nil (String.utf8EncodeChar '\r')] at hcs
      obtain ⟨front, -, -, hfront, -⟩ := Text.exists_of_utf8_append hcs.symm
      exact hnot front hfront
    rw [Offends.readLine_eq (.notText hnot), Offends.readLine_eq (.notText hnot')]

theorem readLine_dropReturn (number : Nat) (line : Octets) :
    readLine number (dropReturn line) = readLine number line := by
  unfold dropReturn
  split
  · rename_i hlast
    obtain ⟨front, rfl⟩ := List.getLast?_eq_some_iff.1 hlast
    rw [List.dropLast_concat, readLine_append_return]
  · rfl

end Lines

/-! ### Texts -/

section Texts

variable {number : Nat} {text : Octets} {ls : List Octets} {ts : List Triplet} {failure : Failure}

theorem readLines_of_accepted {ms : List (Option Triplet)} (h : List.Forall₂ LineSays ls ms)
    (number : Nat) : readLines number ls = .ok ms.reduceOption := by
  induction h generalizing number with
  | nil => rfl
  | @cons line m ls ms hm _ ih =>
    rw [readLines_cons, hm.readLine_eq, Attempt.ok_bind]
    cases m with
    | none => exact ih (number + 1)
    | some t =>
      show (readLines (number + 1) ls >>= _) = _
      rw [ih]
      rfl

theorem lines_cases (number : Nat) (ls : List Octets) : (∃ ms, List.Forall₂ LineSays ls ms) ∨
    ∃ before line rest ms failure, ls = before ++ line :: rest ∧
      List.Forall₂ LineSays before ms ∧ Offends (number + before.length) line failure := by
  induction ls generalizing number with
  | nil => exact .inl ⟨[], .nil⟩
  | cons line ls ih =>
    rcases line_cases number line with ⟨m, hm⟩ | ⟨failure, hfailure⟩
    · rcases ih (number + 1) with ⟨ms, hms⟩ | ⟨before, line', rest, ms, failure, rfl, hbefore, h⟩
      · exact .inl ⟨m :: ms, .cons hm hms⟩
      · refine .inr ⟨line :: before, line', rest, m :: ms, failure, rfl, .cons hm hbefore, ?_⟩
        rw [List.length_cons, Nat.add_comm before.length, ← Nat.add_assoc]
        exact h
    · exact .inr ⟨[], line, ls, [], failure, rfl, .nil, hfailure⟩

theorem readLines_eq_ok_iff : readLines number ls = .ok ts ↔
    ∃ ms, List.Forall₂ LineSays ls ms ∧ ts = ms.reduceOption := by
  constructor
  · intro h
    rcases lines_cases number ls with ⟨ms, hms⟩ | ⟨before, line, rest, ms, failure, rfl, hms, hstop⟩
    · exact ⟨ms, hms, Except.ok.inj (h.symm.trans (readLines_of_accepted hms number))⟩
    · cases h.symm.trans (readLines_append (readLines_of_accepted hms number) hstop.readLine_eq)
  · rintro ⟨ms, hms, rfl⟩
    exact readLines_of_accepted hms number

/-- Lines are refused where one offends, by the first that does. -/
theorem readLines_eq_error_iff : readLines number ls = .error failure ↔
    ∃ before line rest ms, ls = before ++ line :: rest ∧ List.Forall₂ LineSays before ms ∧
      Offends (number + before.length) line failure := by
  constructor
  · intro h
    rcases lines_cases number ls with ⟨ms, hms⟩ | ⟨before, line, rest, ms, other, rfl, hms, hstop⟩
    · cases h.symm.trans (readLines_of_accepted hms number)
    · have haccepted := readLines_of_accepted hms number
      obtain rfl := Except.error.inj (h.symm.trans (readLines_append haccepted hstop.readLine_eq))
      exact ⟨before, line, rest, ms, rfl, hms, hstop⟩
  · rintro ⟨before, line, rest, ms, rfl, hms, hstop⟩
    exact readLines_append (readLines_of_accepted hms number) hstop.readLine_eq

theorem exists_lines (text : Octets) : ∃ ls, Lines text ls := by
  by_cases hend : 0x0A ∈ text
  · obtain ⟨line, rest, htext, hline⟩ := List.eq_append_cons_of_mem hend
    have hshorter : rest.length < text.length := by
      rw [htext, List.length_append, List.length_cons]
      omega
    obtain ⟨ls, h⟩ := exists_lines rest
    rw [htext]
    exact ⟨_, .ended hline h⟩
  · by_cases hnil : text = []
    · rw [hnil]
      exact ⟨[], .none⟩
    · exact ⟨[text], .unended hnil hend⟩
termination_by text.length

theorem Lines.unique (h : Lines text ls) {ls' : List Octets} (h' : Lines text ls') : ls = ls' := by
  induction h generalizing ls' with
  | none =>
    generalize htext : ([] : Octets) = text at h'
    cases h' with
    | none => rfl
    | unended nonempty _ => exact absurd htext.symm nonempty
    | ended _ _ => simp at htext
  | @unended line nonempty whole =>
    cases h' with
    | none => exact absurd rfl nonempty
    | unended _ _ => rfl
    | ended _ _ => simp at whole
  | @ended line rest ls whole h ih =>
    generalize htext : line ++ 0x0A :: rest = text at h'
    cases h' with
    | none => simp at htext
    | unended _ whole' => simp [← htext] at whole'
    | @ended line' rest' ls' whole' h' =>
      have hlines := congrArg lines htext
      rw [lines_append whole, lines_append whole'] at hlines
      obtain rfl := (List.cons.inj hlines).1
      obtain rfl := (List.cons.inj (List.append_cancel_left htext)).2
      rw [ih h']

theorem lines_of_not_mem {line : Octets} (nonempty : line ≠ []) (whole : 0x0A ∉ line) :
    lines line = [line] := by
  induction line with
  | nil => exact absurd rfl nonempty
  | cons b line ih =>
    obtain ⟨hb, hline⟩ : 0x0A ≠ b ∧ 0x0A ∉ line := by simpa using whole
    rw [lines, if_neg (Ne.symm hb)]
    by_cases hnil : line = []
    · rw [hnil]
      rfl
    · rw [ih hnil hline]

/-- It is the same whether the carriage returns before line ends are dropped or trimmed away. -/
theorem Lines.readLines_eq (h : Lines text ls) (number : Nat) :
    readLines number (lines text) = readLines number ls := by
  induction h generalizing number with
  | none => rfl
  | unended nonempty whole => rw [lines_of_not_mem nonempty whole]
  | ended whole _ ih =>
    rw [lines_append whole, readLines_cons, readLines_cons, readLine_dropReturn, ih]

theorem Lines.readAll_eq (h : Lines text ls) : readAll text = readLines 1 ls := h.readLines_eq 1

theorem readAll_eq_ok_iff : readAll text = .ok ts ↔
    ∃ ls ms, Lines text ls ∧ List.Forall₂ LineSays ls ms ∧ ts = ms.reduceOption := by
  obtain ⟨ls, hls⟩ := exists_lines text
  rw [hls.readAll_eq, readLines_eq_ok_iff]
  constructor
  · rintro ⟨ms, hms, rfl⟩
    exact ⟨ls, ms, hls, hms, rfl⟩
  · rintro ⟨ls', ms, hls', hms, rfl⟩
    obtain rfl := hls.unique hls'
    exact ⟨ms, hms, rfl⟩

theorem readAll_eq_error_iff : readAll text = .error failure ↔
    ∃ before line rest ms, Lines text (before ++ line :: rest) ∧
      List.Forall₂ LineSays before ms ∧ Offends (before.length + 1) line failure := by
  obtain ⟨ls, hls⟩ := exists_lines text
  rw [hls.readAll_eq, readLines_eq_error_iff]
  constructor
  · rintro ⟨before, line, rest, ms, rfl, hbefore, hoffends⟩
    rw [Nat.add_comm] at hoffends
    exact ⟨before, line, rest, ms, hls, hbefore, hoffends⟩
  · rintro ⟨before, line, rest, ms, hls', hbefore, hoffends⟩
    rw [Nat.add_comm] at hoffends
    exact ⟨before, line, rest, ms, hls.unique hls', hbefore, hoffends⟩

theorem LineSays.lt {line : Octets} {t : Triplet} (h : LineSays line (some t)) :
    t.row < indexLimit ∧ t.col < indexLimit := by
  cases h with
  | triplet _ h => exact h.lt

theorem lt_of_readAll (h : readAll text = .ok ts) :
    ∀ t ∈ ts, t.row < indexLimit ∧ t.col < indexLimit := by
  obtain ⟨ls, ms, -, hms, rfl⟩ := readAll_eq_ok_iff.1 h
  intro t ht
  obtain ⟨i, hi, hget⟩ := List.mem_iff_getElem.1 (List.reduceOption_mem_iff.1 ht)
  have haccepted := hms.get (hms.length_eq ▸ hi) hi
  rw [List.get_eq_getElem, List.get_eq_getElem, hget] at haccepted
  exact haccepted.lt

/-- A text is read by its grammar. -/
structure ReadsByGrammar (text : Octets) : Prop where
  lines : ∃! ls, Lines text ls
  /-- It is accepted where every line is, as what the lines say in their order. -/
  accepted : ∀ ts, readAll text = .ok ts ↔
    ∃ ls ms, Lines text ls ∧ List.Forall₂ LineSays ls ms ∧ ts = ms.reduceOption
  /-- Otherwise the first line that offends decides, with its number from one on. -/
  refused : ∀ failure, readAll text = .error failure ↔
    ∃ before line rest ms, Lines text (before ++ line :: rest) ∧ List.Forall₂ LineSays before ms ∧
      Offends (before.length + 1) line failure
  /-- Nothing behind this line counts. -/
  rest : ∀ before line rest ms failure, Lines text (before ++ line :: rest) →
    List.Forall₂ LineSays before ms → Offends (before.length + 1) line failure →
    ∀ text' rest', Lines text' (before ++ line :: rest') → readAll text' = .error failure

theorem readAll_by_grammar (text : Octets) : ReadsByGrammar text := by
  constructor
  case lines =>
    obtain ⟨ls, hls⟩ := exists_lines text
    exact ⟨ls, hls, fun ls' hls' => hls'.unique hls⟩
  case accepted => exact fun ts => readAll_eq_ok_iff
  case refused => exact fun failure => readAll_eq_error_iff
  case rest =>
    intro before line rest ms failure _ hbefore hoffends text' rest' htext'
    exact readAll_eq_error_iff.2 ⟨before, line, rest', ms, htext', hbefore, hoffends⟩

end Texts
end CowArrays.Triplet
