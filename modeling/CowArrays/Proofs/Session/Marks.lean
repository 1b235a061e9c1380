import CowArrays.Proofs.Sharing.Atomicity
import CowArrays.Proofs.Storage.Patterns

/-!
Patterns by their histories. However a pattern was made, and whatever was marked in it since, one
position at a time or columns of a row together, it is the set of the positions that it was given:
marks outside of its rows are refused, its rows do not change in number, and neither the order of the
marks nor their repetition can be told from it.
-/

namespace CowArrays

variable {p : Precision}

namespace Pattern

/-! ### Marks -/

/-- The pattern with some more positions marked, those outside of its rows left out. -/
structure Marked (P : Pattern) (ijs : List (Nat × Nat)) (Q : Pattern) : Prop where
  size : Q.size = P.size
  contains : ∀ i j, Q.contains i j = true ↔ (i < P.size ∧ (i, j) ∈ ijs) ∨ P.contains i j = true

variable {P Q R : Pattern} {ijs ijs' : List (Nat × Nat)}

/-- Inside of the rows, all positions are marked. -/
theorem marked_iff (h : ∀ ij ∈ ijs, ij.1 < P.size) : P.Marked ijs Q ↔
    Q.size = P.size ∧ ∀ i j, Q.contains i j = true ↔ (i, j) ∈ ijs ∨ P.contains i j = true := by
  have hinside (i j : Nat) : i < P.size ∧ (i, j) ∈ ijs ↔ (i, j) ∈ ijs :=
    and_iff_right_of_imp (h (i, j))
  constructor
  · exact fun hQ => ⟨hQ.size, fun i j => (hQ.contains i j).trans (or_congr_left (hinside i j))⟩
  · exact fun ⟨hsize, hQ⟩ => ⟨hsize, fun i j => (hQ i j).trans (or_congr_left (hinside i j)).symm⟩

theorem marked_of_outside (h : ∀ ij ∈ ijs, P.size ≤ ij.1) : P.Marked ijs P where
  size := rfl
  contains i j := by
    rw [or_iff_right fun hij => absurd hij.1 (Nat.not_lt.2 (h (i, j) hij.2))]

theorem Marked.trans (hfirst : P.Marked ijs Q) (hrest : Q.Marked ijs' R) :
    P.Marked (ijs ++ ijs') R where
  size := hrest.size.trans hfirst.size
  contains i j := by
    rw [hrest.contains, hfirst.contains, hfirst.size, List.mem_append, and_or_left, or_assoc,
      or_left_comm]

theorem Marked.count_eq {i j : Nat} (h : P.Marked [(i, j)] Q) (hi : i < P.size) :
    Q.count = P.count + (!P.contains i j).toNat := by
  have hinside : ∀ ij ∈ [(i, j)], ij.1 < P.size := by simpa using hi
  refine count_of_contains fun a b => ?_
  rw [((marked_iff hinside).1 h).2, List.mem_singleton, Prod.mk.injEq]

theorem Marked.unique (hQ : P.Marked ijs Q) (hR : P.Marked ijs R) : Q = R :=
  eq_of_contains (hQ.size.trans hR.size.symm) fun i j =>
    (hQ.contains i j).trans (hR.contains i j).symm

inductive Mark
  | one (i j : Nat)
  | many (i : Nat) (js : List Nat)

namespace Mark

def row : Mark → Nat
  | one i _ | many i _ => i

def positions : Mark → List (Nat × Nat)
  | one i j => [(i, j)]
  | many i js => js.map (i, ·)

theorem row_of_mem {m : Mark} {ij : Nat × Nat} (h : ij ∈ m.positions) : ij.1 = m.row := by
  cases m with
  | one i j => exact congrArg Prod.fst (List.mem_singleton.1 h)
  | many i js =>
    obtain ⟨j, -, rfl⟩ := List.mem_map.1 h
    rfl

def edit : Mark → PatternEdit
  | one i j => .insert i j
  | many i js => .insertAll i js

/-- The answer to a mark: whether it is new, if it is one position. -/
def answer (P : Pattern) : Mark → Answer p
  | one i j => .bool (!P.contains i j)
  | many _ _ => .done

theorem run_of_lt {m : Mark} (h : m.row < P.size) :
    ∃ Q, m.edit.run P = .ok (m.answer (p := p) P, Q) ∧ P.Marked m.positions Q := by
  have hinside : ∀ ij ∈ m.positions, ij.1 < P.size := fun ij hij => row_of_mem hij ▸ h
  cases m with
  | one i j =>
    obtain ⟨Q, hQ, hsize, hcontains⟩ := insert_of_lt (i := i) h j
    refine ⟨Q, by simp only [edit, PatternEdit.run, hQ]; rfl, (marked_iff hinside).2 ⟨hsize, ?_⟩⟩
    intro a b
    rw [hcontains, positions, List.mem_singleton, Prod.mk.injEq]
  | many i js =>
    obtain ⟨Q, hQ, hsize, hcontains⟩ := insertAll_of_lt (i := i) h js
    refine ⟨Q, by simp only [edit, PatternEdit.run, hQ]; rfl, (marked_iff hinside).2 ⟨hsize, ?_⟩⟩
    intro a b
    have hmem : (a, b) ∈ (many i js).positions ↔ a = i ∧ b ∈ js := by
      simp [positions, and_comm, eq_comm]
    rw [hcontains, hmem]

def step (m : Mark) (of : Name) : Step p := .act (.pattern (.edit of m.edit))

def ones (ijs : List (Nat × Nat)) : List Mark := ijs.map fun ij => .one ij.1 ij.2

def steps (ms : List Mark) (of : Name) : List (Step p) := ms.map (step · of)

end Mark

/-! ### Histories -/

/-- The ways to make a pattern: without marks, with all marks, or from columns for each row. -/
inductive Start
  | empty (rows : Nat)
  | full (rows cols : Nat)
  | lists (rows : List (List Nat))

namespace Start

def pattern : Start → Pattern
  | empty rows => .empty rows
  | full rows cols => .full rows cols
  | lists rows => .ofLists rows

def size : Start → Nat
  | empty rows | full rows _ => rows
  | lists rows => rows.length

def Gives (i j : Nat) : Start → Prop
  | empty _ => False
  | full rows cols => i < rows ∧ j < cols
  | lists rows => ∃ js, rows[i]? = some js ∧ j ∈ js

theorem size_pattern (start : Start) : start.pattern.size = start.size := by
  cases start with
  | empty rows => exact size_empty rows
  | full rows cols => exact size_full rows cols
  | lists rows => exact size_ofLists rows

theorem contains_pattern (start : Start) (i j : Nat) :
    start.pattern.contains i j = true ↔ start.Gives i j := by
  cases start with
  | empty rows => simp [pattern, Gives]
  | full rows cols => exact contains_full
  | lists rows => exact contains_ofLists

end Start

/-- How a pattern was made, and the marks that were made in it since. -/
structure History where
  start : Start
  marks : List Mark

namespace History

/-- The positions of the marks, inside of the rows or not. -/
def marked (h : History) : List (Nat × Nat) := h.marks.flatMap Mark.positions

/-- Whether a position was given, at the start or by a mark inside of the rows. -/
def Given (h : History) (i j : Nat) : Prop :=
  h.start.Gives i j ∨ i < h.start.size ∧ (i, j) ∈ h.marked

def steps (h : History) (of : Name) : List (Step p) :=
  .act (.pattern (.create h.start.pattern of)) :: Mark.steps h.marks of

/-- The history with the columns of a row marked one after the other. -/
def split (h : History) : History := ⟨h.start, Mark.ones h.marked⟩

theorem marked_split (h : History) : h.split.marked = h.marked := by
  simp [marked, split, Mark.ones, List.flatMap_map, Mark.positions]

end History

theorem Marked.given {h : History} (hP : h.start.pattern.Marked h.marked P) (i j : Nat) :
    P.contains i j = true ↔ h.Given i j := by
  rw [hP.contains, h.start.contains_pattern, h.start.size_pattern, or_comm, History.Given]

end Pattern

open Pattern (Mark History)

/-! ### Steps -/

def saidYes : Attempt (Answer p) → Bool
  | .ok (.bool b) => b
  | _ => false

namespace Store

variable {s : Store p} {of : Name} {P : Pattern}

def yeses (s : Store p) (steps : List (Step p)) : Nat := (s.run steps).countP fun r => saidYes r.1

theorem yeses_cons (t : Step p) (rest : List (Step p)) :
    s.yeses (t :: rest) = (saidYes (s.step t).1).toNat + (s.step t).2.yeses rest := by
  rw [yeses, run, List.countP_cons, Nat.add_comm]
  cases saidYes (s.step t).1 <;> rfl

theorem pattern_setPattern (s : Store p) (of : Name) (P : Pattern) :
    (s.setPattern of P).reading.pattern of = .ok P := by
  have hfind : (s.setPattern of P).find? of = some (.pattern P) :=
    (find?_bind of of _).trans (if_pos rfl)
  rw [Reading.pattern_eq_ok]
  show ((s.setPattern of P).find? of).bind _ = _
  rw [hfind]
  rfl

theorem step_mark_of_lt (hP : s.reading.pattern of = .ok P) {m : Mark} (h : m.row < P.size) :
    ∃ Q, s.step (m.step of) = (.ok (m.answer P), s.setPattern of Q) ∧ P.Marked m.positions Q := by
  obtain ⟨Q, hrun, hQ⟩ := m.run_of_lt (p := p) h
  have hplan : s.plan (m.step of) = .ok ⟨m.answer P, [.setPattern of Q]⟩ := by
    show (PatternStep.edit of m.edit).plan s.reading = _
    rw [PatternStep.plan, hP, Attempt.ok_bind, hrun]
    rfl
  exact ⟨Q, step_of_ok hplan, hQ⟩

theorem step_mark_of_ge (hP : s.reading.pattern of = .ok P) {m : Mark} (h : P.size ≤ m.row) :
    s.step (m.step of) = (.error (.outOfRange (.pattern m.row P.size)), s) := by
  have henters : (PatternStep.edit (p := p) of m.edit).Enters m.row of := by
    cases m with
    | one i j => exact .insert of j
    | many i js => exact .insertAll of js
  exact step_of_error (henters.plan_eq hP h)

theorem step_mark (hP : s.reading.pattern of = .ok P) (m : Mark) :
    ∃ Q, (s.step (m.step of)).2.reading.pattern of = .ok Q ∧ P.Marked m.positions Q := by
  rcases Nat.lt_or_ge m.row P.size with h | h
  · obtain ⟨Q, hstep, hQ⟩ := step_mark_of_lt hP h
    rw [hstep]
    exact ⟨Q, pattern_setPattern s of Q, hQ⟩
  · rw [step_mark_of_ge hP h]
    exact ⟨P, hP, Pattern.marked_of_outside fun ij hij => Mark.row_of_mem hij ▸ h⟩

theorem count_step_one (hP : s.reading.pattern of = .ok P) {i j : Nat} {Q : Pattern}
    (hQ : (s.step ((Mark.one i j).step of)).2.reading.pattern of = .ok Q) :
    Q.count = P.count + (saidYes (s.step ((Mark.one i j).step of)).1).toNat := by
  rcases Nat.lt_or_ge i P.size with h | h
  · obtain ⟨R, hstep, hR⟩ := step_mark_of_lt (m := .one i j) hP h
    rw [hstep, pattern_setPattern] at hQ
    obtain rfl : R = Q := Except.ok.inj hQ
    rw [hstep]
    exact hR.count_eq h
  · have hstep := step_mark_of_ge (m := .one i j) hP h
    rw [hstep] at hQ ⊢
    obtain rfl : P = Q := Except.ok.inj (hP.symm.trans hQ)
    rfl

theorem step_same {a b : Name} {Q : Pattern} (hP : s.reading.pattern a = .ok P)
    (hQ : s.reading.pattern b = .ok Q) :
    s.step (.act (.pattern (.same a b))) = (.ok (.bool (decide (P = Q))), s) := by
  have hplan : s.plan (.act (.pattern (.same a b))) = .ok (.tell (.bool (decide (P = Q)))) := by
    show (PatternStep.same a b).plan s.reading = _
    simp only [PatternStep.plan, hP, hQ, Attempt.ok_bind, Attempt.pure_eq_ok]
  exact step_of_ok hplan

/-! ### Runs -/

theorem after_marks (hP : s.reading.pattern of = .ok P) (ms : List Mark) :
    ∃ Q, (s.after (Mark.steps ms of)).reading.pattern of = .ok Q ∧
      P.Marked (ms.flatMap Mark.positions) Q := by
  induction ms generalizing s P with
  | nil => exact ⟨P, hP, Pattern.marked_of_outside nofun⟩
  | cons m ms ih =>
    obtain ⟨Q, hQ, hfirst⟩ := step_mark hP m
    obtain ⟨R, hR, hrest⟩ := ih hQ
    exact ⟨R, hR, hfirst.trans hrest⟩

/-- As many positions are new in a run of single marks as steps are answered with yes. -/
theorem count_after_ones (hP : s.reading.pattern of = .ok P) (ijs : List (Nat × Nat)) {Q : Pattern}
    (hQ : (s.after (Mark.steps (Mark.ones ijs) of)).reading.pattern of = .ok Q) :
    Q.count = P.count + s.yeses (Mark.steps (Mark.ones ijs) of) := by
  induction ijs generalizing s P with
  | nil =>
    obtain rfl : P = Q := Except.ok.inj (hP.symm.trans hQ)
    rfl
  | cons ij ijs ih =>
    obtain ⟨R, hR, -⟩ := step_mark hP (.one ij.1 ij.2)
    show Q.count = P.count + s.yeses ((Mark.one ij.1 ij.2).step of :: Mark.steps (Mark.ones ijs) of)
    rw [yeses_cons, ih hR hQ, count_step_one hP hR, Nat.add_assoc]

/-- The pattern that a history leaves, whatever was in the store before. -/
theorem after_steps (s : Store p) (of : Name) (h : History) :
    ∃ P, (s.after (h.steps of)).reading.pattern of = .ok P ∧ h.start.pattern.Marked h.marked P :=
  after_marks (pattern_setPattern s of h.start.pattern) h.marks

/-- A mark outside of the rows and a repeated one are passed over. -/
example :
    let h : History := ⟨.empty 2, [.one 1 7, .one 5 0, .many 1 [2, 7]]⟩
    let s : Store .double := {}
    (s.after (h.steps "x")).reading.pattern "x" = .ok (.ofLists [[], [2, 7]]) ∧
      s.yeses (h.split.steps "x") = 2 := ⟨rfl, rfl⟩

/-- What a pattern is that a history left under a name: the set of the positions that it was given,
listed once and in order, counted, extended and compared as such. -/
structure MarkLaws (s : Store p) (of : Name) (h : History) (P : Pattern) : Prop where
  size : P.size = h.start.size
  contains : ∀ i j, P.contains i j = true ↔ h.Given i j
  ordered : P.positions.Pairwise Pattern.Precedes
  positions : ∀ i j, (i, j) ∈ P.positions ↔ P.contains i j = true
  length : P.positions.length = P.count
  /-- A single mark says whether it is new. -/
  one : ∀ i j, i < P.size →
    ((s.after (h.steps of)).step ((Mark.one i j).step of)).1 = .ok (.bool (!P.contains i j))
  /-- Marks that are made one by one count as often as they are new. -/
  ones : ∀ ijs, ∃ Q,
    ((s.after (h.steps of)).after (Mark.steps (Mark.ones ijs) of)).reading.pattern of = .ok Q ∧
      Q.count = P.count + (s.after (h.steps of)).yeses (Mark.steps (Mark.ones ijs) of)
  outside : ∀ m : Mark, P.size ≤ m.row → (s.after (h.steps of)).step (m.step of) =
    (.error (.outOfRange (.pattern m.row P.size)), s.after (h.steps of))
  /-- Columns that are marked together come to the same as one after the other. -/
  split : (s.after (h.split.steps of)).reading.pattern of = .ok P
  /-- All that was not there at the start was new once. -/
  counted : P.count = h.start.pattern.count + s.yeses (h.split.steps of)
  /-- A pattern that another history left, in this or another store, is equal to this one if both
  were given the same positions. -/
  equal : ∀ (t : Store p) (other : Name) (k : History) (Q : Pattern),
    (t.after (k.steps other)).reading.pattern other = .ok Q → k.start.size = h.start.size →
      (P = Q ↔ ∀ i j, h.Given i j ↔ k.Given i j)
  same : ∀ (t : Store p) (a b : Name) (Q : Pattern), t.reading.pattern a = .ok P →
    t.reading.pattern b = .ok Q →
      t.step (.act (.pattern (.same a b))) = (.ok (.bool (decide (P = Q))), t)

/-- Every history leaves a pattern, and it is the set of the positions that it was given. -/
theorem markLaws (s : Store p) (of : Name) (h : History) :
    ∃ P, (s.after (h.steps of)).reading.pattern of = .ok P ∧ s.MarkLaws of h P := by
  obtain ⟨P, hP, hmarked⟩ := after_steps s of h
  obtain ⟨Q, hsplit, hmarked'⟩ := after_steps s of h.split
  rw [h.marked_split] at hmarked'
  obtain rfl : P = Q := hmarked.unique hmarked'
  refine ⟨P, hP, ?_⟩
  constructor
  case size => exact hmarked.size.trans h.start.size_pattern
  case contains => exact hmarked.given
  case ordered => exact P.pairwise_positions
  case positions => exact fun i j => Pattern.mem_positions
  case length => exact P.length_positions
  case one =>
    intro i j hi
    obtain ⟨Q, hstep, -⟩ := step_mark_of_lt (m := .one i j) hP hi
    exact congrArg Prod.fst hstep
  case ones =>
    intro ijs
    obtain ⟨Q, hQ, -⟩ := after_marks hP (Mark.ones ijs)
    exact ⟨Q, hQ, count_after_ones hP ijs hQ⟩
  case outside => exact fun m hm => step_mark_of_ge hP hm
  case split => exact hsplit
  case counted =>
    -- the step that makes the pattern is not answered with yes
    rw [History.steps, yeses_cons, count_after_ones (pattern_setPattern s of _) h.marked hsplit]
    exact congrArg _ (Nat.zero_add _).symm
  case equal =>
    intro t other k Q hQ hsize
    obtain ⟨R, hR, hmarked'⟩ := after_steps t other k
    obtain rfl : R = Q := Except.ok.inj (hR.symm.trans hQ)
    refine ⟨fun heq i j => ?_, fun hgiven => Pattern.eq_of_contains ?_ fun i j => ?_⟩
    · rw [← hmarked.given, ← hmarked'.given, heq]
    · rw [hmarked.size, hmarked'.size, Pattern.Start.size_pattern, Pattern.Start.size_pattern, hsize]
    · rw [hmarked.given, hmarked'.given, hgiven]
  case same => exact fun t a b Q => step_same

end Store
end CowArrays
