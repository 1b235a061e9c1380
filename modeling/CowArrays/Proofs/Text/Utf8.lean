import CowArrays.Proofs.Text.Trimming

/-!
Text as octets, and text without white space. Octets that were made of a text read back as this
text, and a text within them is one between characters. Visible characters of one octet can neither
end a line nor be trimmed.
-/

namespace CowArrays.Text

/-! ### Octets -/

theorem toList_loop (a : ByteArray) (i : Nat) (read : List UInt8) :
    ByteArray.toList.loop a i read = read.reverse ++ a.data.toList.drop i := by
  by_cases h : i < a.size
  · have hget : a.data.toList.drop i = a.get! i :: a.data.toList.drop (i + 1) := by
      rw [List.drop_eq_getElem_cons (by simpa using h)]
      simp [ByteArray.get!, getElem!_pos a.data i h]
    rw [ByteArray.toList.loop, if_pos h, toList_loop a (i + 1), hget]
    simp
  · have hnil : a.data.toList.drop i = [] := List.drop_eq_nil_of_le (by simpa using h)
    rw [ByteArray.toList.loop, if_neg h, hnil, List.append_nil]
termination_by a.size - i

theorem toList_eq (a : ByteArray) : a.toList = a.data.toList := by
  rw [ByteArray.toList, toList_loop]
  simp

theorem toByteArray_toList (a : ByteArray) : a.toList.toByteArray = a := by
  rw [toList_eq]
  exact ByteArray.ext (by simp)

theorem toList_toUTF8 (s : String) : s.toUTF8.toList = s.toList.flatMap String.utf8EncodeChar := by
  rw [String.toUTF8_eq_toByteArray, ← String.utf8Encode_toList, toList_eq]
  simp [List.utf8Encode]

theorem toUTF8_append (s t : String) :
    (s ++ t).toUTF8.toList = s.toUTF8.toList ++ t.toUTF8.toList := by
  rw [toList_toUTF8, toList_toUTF8, toList_toUTF8, String.toList_append, List.flatMap_append]

theorem toUTF8_join (ss : List String) :
    (String.join ss).toUTF8.toList = (ss.map fun s => s.toUTF8.toList).flatten := by
  simp only [toList_toUTF8, String.toList_join]
  rw [List.flatMap_assoc, List.flatMap_def]

theorem fromUTF8?_toUTF8 (s : String) : String.fromUTF8? s.toUTF8.toList.toByteArray = some s := by
  rw [toByteArray_toList]
  exact dif_pos s.isValidUTF8

theorem fromUTF8?_eq_some_iff {octets : List UInt8} {s : String} :
    String.fromUTF8? octets.toByteArray = some s ↔
      octets = s.toList.flatMap String.utf8EncodeChar := by
  constructor
  · intro h
    rw [← toList_toUTF8, toList_eq]
    unfold String.fromUTF8? at h
    split at h
    · have hs : s.toUTF8 = octets.toByteArray := by rw [← Option.some.inj h]; rfl
      rw [hs]
      simp
    · cases h
  · intro h
    rw [h, ← toList_toUTF8, fromUTF8?_toUTF8]

/-- No character's octets begin those of another one. -/
theorem utf8EncodeChar_append_inj {c d : Char} {xs ys : List UInt8}
    (h : String.utf8EncodeChar c ++ xs = String.utf8EncodeChar d ++ ys) : c = d ∧ xs = ys := by
  have hdecode := congrArg (fun octets => octets.toByteArray.utf8DecodeChar? 0) h
  simp only [List.toByteArray_append, ByteArray.utf8DecodeChar?_utf8EncodeChar_append,
    Option.some.injEq] at hdecode
  subst hdecode
  exact ⟨rfl, List.append_cancel_left h⟩

/-- A character in the octets of a text is one of the text, because its first octet can only be the
first one of a character. -/
theorem exists_of_utf8_append {cs : List Char} {xs ys : List UInt8} {c : Char}
    (h : cs.flatMap String.utf8EncodeChar = xs ++ (String.utf8EncodeChar c ++ ys)) :
    ∃ front rest, cs = front ++ c :: rest ∧ xs = front.flatMap String.utf8EncodeChar ∧
      ys = rest.flatMap String.utf8EncodeChar := by
  induction cs generalizing xs with
  | nil => simp [String.utf8EncodeChar_ne_nil] at h
  | cons d cs ih =>
    rw [List.flatMap_cons] at h
    rcases List.append_eq_append_iff.1 h with ⟨more, rfl, hrest⟩ | ⟨tail, hd, hrest⟩
    · obtain ⟨front, rest, rfl, rfl, rfl⟩ := ih hrest
      exact ⟨d :: front, rest, rfl, by simp, rfl⟩
    · cases xs with
      | nil =>
        rw [List.nil_append] at hd
        rw [← hd] at hrest
        obtain ⟨rfl, rfl⟩ := utf8EncodeChar_append_inj hrest
        exact ⟨[], cs, rfl, rfl, rfl⟩
      | cons x xs =>
        cases tail with
        | nil =>
          obtain ⟨front, rest, rfl, hfront, rfl⟩ := @ih [] hrest.symm
          exact ⟨d :: front, rest, rfl, by simp [hd, ← hfront], rfl⟩
        | cons b tail =>
          -- the first octet of the one would be a later octet of the other
          obtain ⟨b', octets, hc⟩ :=
            List.exists_cons_of_ne_nil (String.utf8EncodeChar_ne_nil (c := c))
          rw [hc] at hrest
          obtain ⟨rfl, -⟩ := List.cons.inj hrest
          have hfirst : b'.IsUTF8FirstByte := by
            simpa [hc] using UInt8.isUTF8FirstByte_getElem_zero_utf8EncodeChar (c := c)
          have hlength : xs.length + 1 < (String.utf8EncodeChar d).length := by simp [hd]
          have hlater : (String.utf8EncodeChar d)[xs.length + 1] = b' := by simp [hd]
          rw [← hlater] at hfirst
          cases UInt8.isUTF8FirstByte_getElem_utf8EncodeChar.1 hfirst

/-- A text whose octets begin with those of another one begins with that one. -/
theorem utf8_append_left {cs ws : List Char} {ys : List UInt8}
    (h : cs.flatMap String.utf8EncodeChar = ws.flatMap String.utf8EncodeChar ++ ys) :
    ∃ rest, cs = ws ++ rest ∧ ys = rest.flatMap String.utf8EncodeChar := by
  induction ws generalizing cs with
  | nil => exact ⟨cs, rfl, h.symm⟩
  | cons w ws ih =>
    cases cs with
    | nil => simp [String.utf8EncodeChar_ne_nil] at h
    | cons c cs =>
      rw [List.flatMap_cons, List.flatMap_cons, List.append_assoc] at h
      obtain ⟨rfl, hrest⟩ := utf8EncodeChar_append_inj h
      obtain ⟨rest, rfl, rfl⟩ := ih hrest
      exact ⟨rest, rfl, rfl⟩

/-- Where there is the octet of a character of one octet, there is the character. -/
theorem mem_of_utf8 {cs : List Char} {c : Char} {b : UInt8} (hc : String.utf8EncodeChar c = [b])
    (h : b ∈ cs.flatMap String.utf8EncodeChar) : c ∈ cs := by
  obtain ⟨xs, ys, hsplit⟩ := List.append_of_mem h
  have hchar : cs.flatMap String.utf8EncodeChar = xs ++ (String.utf8EncodeChar c ++ ys) := by
    rw [hsplit, hc]
    rfl
  obtain ⟨front, rest, rfl, -⟩ := exists_of_utf8_append hchar
  exact List.mem_append_right _ List.mem_cons_self

/-- Where there is a text within a text, what is before it and behind it is text. -/
theorem exists_of_utf8_insert {cs ws : List Char} {xs ys : List UInt8} (hws : ws ≠ [])
    (h : cs.flatMap String.utf8EncodeChar = xs ++ (ws.flatMap String.utf8EncodeChar ++ ys)) :
    ∃ front rest, cs = front ++ (ws ++ rest) ∧ xs = front.flatMap String.utf8EncodeChar ∧
      ys = rest.flatMap String.utf8EncodeChar := by
  obtain ⟨w, ws, rfl⟩ := List.exists_cons_of_ne_nil hws
  rw [List.flatMap_cons, List.append_assoc] at h
  obtain ⟨front, behind, rfl, rfl, hbehind⟩ := exists_of_utf8_append h
  obtain ⟨rest, rfl, rfl⟩ := utf8_append_left hbehind.symm
  exact ⟨front, rest, rfl, rfl, rfl⟩

def IsAscii (s : String) : Prop := ∀ c ∈ s.toList, c.toNat < 0x80

instance (s : String) : Decidable (IsAscii s) := List.decidableBAll _ s.toList

theorem utf8EncodeChar_of_lt {c : Char} (h : c.toNat < 0x80) :
    String.utf8EncodeChar c = [UInt8.ofNat c.toNat] := by
  have hsize : c.utf8Size = 1 := by
    have hle : c.val ≤ 0x7F := UInt32.le_iff_toNat_le.2 (Nat.le_of_lt_succ h)
    simp [Char.utf8Size, hle]
  rw [String.utf8EncodeChar_eq_singleton hsize]
  rfl

/-! ### Visible characters -/

/-- Whether a character is written with one octet and leaves a trace. -/
def IsVisible (c : Char) : Prop := 0x20 < c.toNat ∧ c.toNat < 0x7F

instance (c : Char) : Decidable (IsVisible c) := inferInstanceAs (Decidable (_ ∧ _))

theorem IsVisible.not_blank {c : Char} (h : IsVisible c) : isBlank c = false := by
  obtain ⟨hlow, hhigh⟩ := h
  simp only [isBlank, Bool.or_eq_false_iff, Bool.and_eq_false_iff, decide_eq_false_iff_not,
    beq_eq_false_iff_ne]
  omega

theorem lineEnd_not_mem {s : String} (h : ∀ c ∈ s.toList, IsVisible c) : 0x0A ∉ s.toUTF8.toList := by
  rw [toList_toUTF8]
  intro hmem
  have hend := h '\n' (mem_of_utf8 (by decide) hmem)
  exact absurd hend (by decide)

theorem trim_of_visible {cs : List Char} (h : ∀ c ∈ cs, IsVisible c) : trim cs = cs := by
  have hpadded : Padded cs cs := by
    refine ⟨⟨[], [], (List.append_nil cs).symm, nofun, nofun⟩, fun c hc => ?_, fun c hc => ?_⟩
    · exact (h c (List.mem_of_mem_head? hc)).not_blank
    · exact (h c (List.mem_of_mem_getLast? hc)).not_blank
  exact hpadded.trim_eq

end CowArrays.Text
