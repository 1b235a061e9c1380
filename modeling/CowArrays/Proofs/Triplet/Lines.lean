import CowArrays.Proofs.Attempt
import CowArrays.Proofs.Text.Scientific
import CowArrays.Triplet.Reader
import CowArrays.Triplet.Writer

/-!
Triplet lines read back: a written line splits off at its end, splits at its commas into the fields
that it was made of, and each field reads as what it was written for.
-/

namespace CowArrays.Triplet

variable {p : Precision}

open Text (IsField IsVisible)

/-! ### Lines of a text -/

theorem lines_append {line : Octets} (h : 0x0A ∉ line) (rest : Octets) :
    lines (line ++ 0x0A :: rest) = line :: lines rest := by
  induction line with
  | nil => simp [lines]
  | cons b line ih =>
    obtain ⟨hb, hline⟩ : 0x0A ≠ b ∧ 0x0A ∉ line := by simpa using h
    rw [List.cons_append, lines, if_neg (Ne.symm hb), ih hline]

/-- Lines that are put together with their ends come apart again. -/
theorem lines_flatten {bodies : List Octets} (h : ∀ line ∈ bodies, 0x0A ∉ line) :
    lines (bodies.map (· ++ [0x0A])).flatten = bodies := by
  induction bodies with
  | nil => rfl
  | cons line bodies ih =>
    obtain ⟨hline, hbodies⟩ := List.forall_mem_cons.1 h
    have happend : ((line :: bodies).map (· ++ [(0x0A : UInt8)])).flatten =
        line ++ 0x0A :: (bodies.map (· ++ [(0x0A : UInt8)])).flatten := by simp
    rw [happend, lines_append hline, ih hbodies]

/-! ### One line -/

def body (i j : Nat) (x : Scalar p) : String := s!"{i},{j}," ++ x.toDouble.scientific

theorem line_eq (i j : Nat) (x : Scalar p) : line i j x = body i j x ++ "\n" := rfl

theorem toList_body (i j : Nat) (x : Scalar p) : (body i j x).toList =
    Nat.toDigits 10 i ++ ',' :: (Nat.toDigits 10 j ++ ',' :: x.toDouble.scientific.toList) := by
  simp [body]
  rfl

theorem visible_of_mem_body {i j : Nat} {x : Scalar p} {c : Char} (h : c ∈ (body i j x).toList) :
    IsVisible c := by
  have hcomma : IsVisible ',' := by decide
  rw [toList_body] at h
  simp only [List.mem_append, List.mem_cons] at h
  rcases h with h | rfl | h | rfl | h
  · exact (field_of_mem_toDigits h).1
  · exact hcomma
  · exact (field_of_mem_toDigits h).1
  · exact hcomma
  · exact (Scalar.field_of_mem_scientific h).1

theorem fields_append {a b c : List Char} (ha : ∀ x ∈ a, IsField x) (hb : ∀ x ∈ b, IsField x)
    (hc : ∀ x ∈ c, IsField x) : fields (a ++ ',' :: (b ++ ',' :: c)) = [a, b, c] := by
  have hcomma {cs : List Char} (h : ∀ x ∈ cs, IsField x) : ',' ∉ cs := fun hmem => (h _ hmem).2 rfl
  have htrim {cs : List Char} (h : ∀ x ∈ cs, IsField x) : Text.trim cs = cs :=
    Text.trim_of_visible fun x hx => (h x hx).1
  rw [fields, List.splitOn_append_cons_self_of_not_mem (hcomma ha),
    List.splitOn_append_cons_self_of_not_mem (hcomma hb), List.splitOn_eq_singleton (hcomma hc)]
  simp only [List.map_cons, List.map_nil, htrim ha, htrim hb, htrim hc]

/-- The triplet that the line of an entry says, where its value reads back as a literal. -/
theorem ofLine_body {i j : Nat} (hi : i < indexLimit) (hj : j < indexLimit) {x : Scalar p}
    {l : Literal} (hl : Literal.read x.toDouble.scientific.toList = some l) :
    ofLine (body i j x).toList = .ok ⟨i, j, .ofLiteral l⟩ := by
  have hfields : fields (body i j x).toList =
      [Nat.toDigits 10 i, Nat.toDigits 10 j, x.toDouble.scientific.toList] := by
    rw [toList_body]
    exact fields_append (fun _ h => field_of_mem_toDigits h) (fun _ h => field_of_mem_toDigits h)
      fun _ h => Scalar.field_of_mem_scientific h
  rw [ofLine, hfields]
  simp only [readIndex_toDigits hi, readIndex_toDigits hj, hl]
  rfl

theorem readLine_body {i j : Nat} (hi : i < indexLimit) (hj : j < indexLimit) {x : Scalar p}
    {l : Literal} (hl : Literal.read x.toDouble.scientific.toList = some l) (number : Nat) :
    readLine number (body i j x).toUTF8.toList = .ok (some ⟨i, j, .ofLiteral l⟩) := by
  have hvisible : ∀ c ∈ (body i j x).toList, IsVisible c := fun _ h => visible_of_mem_body h
  have hnonempty : (body i j x).toList ≠ [] := by simp [toList_body]
  rw [readLine, Text.fromUTF8?_toUTF8]
  dsimp only
  rw [Text.trim_of_visible hvisible, if_neg hnonempty, ofLine_body hi hj hl]

/-! ### All lines -/

/-- The value that the text of an entry reads back as. -/
def reread (x : Scalar p) : Scalar .double :=
  (Literal.read x.toDouble.scientific.toList).elim .zero .ofLiteral

theorem reread_eq {x : Scalar p} {l : Literal}
    (h : Literal.read x.toDouble.scientific.toList = some l) : reread x = .ofLiteral l := by
  rw [reread, h]
  rfl

def again (e : Nat × Nat × Scalar p) : Triplet := ⟨e.1, e.2.1, reread e.2.2⟩

theorem readLines_bodies {es : List (Nat × Nat × Scalar p)}
    (h : ∀ e ∈ es, e.1 < indexLimit ∧ e.2.1 < indexLimit) (number : Nat) :
    readLines number (es.map fun e => (body e.1 e.2.1 e.2.2).toUTF8.toList) = .ok (es.map again) := by
  induction es generalizing number with
  | nil => rfl
  | cons e es ih =>
    obtain ⟨⟨hi, hj⟩, hes⟩ := List.forall_mem_cons.1 h
    obtain ⟨l, hl⟩ := e.2.2.toDouble.read_scientific
    rw [List.map_cons, readLines, readLine_body hi hj hl, Attempt.ok_bind]
    show (readLines (number + 1) _ >>= _) = _
    rw [ih hes, List.map_cons, again, reread_eq hl]
    rfl

theorem lines_lines (es : List (Nat × Nat × Scalar p)) :
    lines (es.map fun e => (line e.1 e.2.1 e.2.2).toUTF8.toList).flatten =
      es.map fun e => (body e.1 e.2.1 e.2.2).toUTF8.toList := by
  -- each line is its body and a line end, which is not in the body
  have hends : es.map (fun e => (line e.1 e.2.1 e.2.2).toUTF8.toList) =
      (es.map fun e => (body e.1 e.2.1 e.2.2).toUTF8.toList).map (· ++ [0x0A]) := by
    have hend : "\n".toUTF8.toList = [0x0A] := by
      rw [Text.toList_toUTF8]
      decide
    rw [List.map_map]
    refine List.map_congr_left fun e _ => ?_
    rw [line_eq, Text.toUTF8_append, hend]
    rfl
  rw [hends, lines_flatten]
  intro octets hmem
  obtain ⟨e, -, rfl⟩ := List.mem_map.1 hmem
  exact Text.lineEnd_not_mem fun _ hc => visible_of_mem_body hc

theorem readAll_lines {es : List (Nat × Nat × Scalar p)}
    (h : ∀ e ∈ es, e.1 < indexLimit ∧ e.2.1 < indexLimit) :
    readAll (es.map fun e => (line e.1 e.2.1 e.2.2).toUTF8.toList).flatten = .ok (es.map again) := by
  rw [readAll, lines_lines, readLines_bodies h]

end CowArrays.Triplet
