import CowArrays.Proofs.Triplet.Filling

/-!
Where the reading of a triplet text stops: at the first line that offends, whatever follows it, or
where the stream breaks off, and where neither happens, at the first position outside the grid.
-/

namespace CowArrays

variable {p : Precision}

/-- What is wrong with a position outside a grid of so many rows and columns; the row is looked at
first. -/
inductive Outside (rows cols i j : Nat) : Failure → Prop
  | row (h : rows ≤ i) : Outside rows cols i j (.refused (.indexOutOfRange .row i rows))
  | column (inside : i < rows) (h : cols ≤ j) :
      Outside rows cols i j (.refused (.indexOutOfRange .column j cols))

theorem Triplet.check_eq_error {rows cols i j : Nat} {failure : Failure} :
    (checkRow i rows >>= fun _ => checkCol j cols) = .error failure ↔
      Outside rows cols i j failure := by
  constructor
  · intro h
    by_cases hi : i < rows
    · rw [checkRow, checkIndex_eq_ok.2 hi, Attempt.ok_bind] at h
      have hj : cols ≤ j := by
        by_contra hlt
        rw [checkCol, checkIndex_eq_ok.2 (Nat.lt_of_not_le hlt)] at h
        cases h
      cases (checkIndex_eq_error hj).symm.trans h
      exact .column hi hj
    · rw [checkRow, checkIndex_eq_error (Nat.le_of_not_lt hi), Attempt.error_bind] at h
      cases h
      exact .row (Nat.le_of_not_lt hi)
  · intro h
    cases h with
    | row h => rw [checkRow, checkIndex_eq_error h, Attempt.error_bind]
    | column inside h =>
      rw [checkRow, checkIndex_eq_ok.2 inside, Attempt.ok_bind]
      exact checkIndex_eq_error h

theorem Outside.check {rows cols i j : Nat} {failure : Failure} (h : Outside rows cols i j failure) :
    (checkRow i rows >>= fun _ => checkCol j cols) = .error failure :=
  Triplet.check_eq_error.2 h

namespace Triplet

theorem readLines_cons (number : Nat) (line : Octets) (rest : List Octets) :
    readLines number (line :: rest) = readLine number line >>= fun m =>
      m.elim (readLines (number + 1) rest) fun t =>
        readLines (number + 1) rest >>= fun ts => .ok (t :: ts) := by
  rw [readLines]
  cases readLine number line with
  | error failure => rfl
  | ok m => cases m <;> rfl

/-- Lines are read one after the other, so the failure of the first ones decides. -/
theorem readLines_append_eq (number : Nat) (ls ls' : List Octets) :
    readLines number (ls ++ ls') = readLines number ls >>= fun ts =>
      readLines (number + ls.length) ls' >>= fun us => .ok (ts ++ us) := by
  induction ls generalizing number with
  | nil =>
    show readLines number ls' = readLines number ls' >>= fun us => .ok us
    cases readLines number ls' <;> rfl
  | cons line ls ih =>
    rw [List.cons_append, readLines_cons, readLines_cons, ih, List.length_cons,
      Nat.add_comm ls.length, ← Nat.add_assoc]
    cases readLine number line with
    | error failure => rfl
    | ok m =>
      cases m with
      | none => rfl
      | some t =>
        show ((readLines (number + 1) ls >>= _) >>= _) = ((readLines (number + 1) ls >>= _) >>= _)
        cases readLines (number + 1) ls with
        | error failure => rfl
        | ok ts => cases readLines (number + 1 + ls.length) ls' <;> rfl

theorem readLines_append {before rest : List Octets} {line : Octets} {number : Nat}
    {ts : List Triplet} {failure : Failure} (hbefore : readLines number before = .ok ts)
    (hline : readLine (number + before.length) line = .error failure) :
    readLines number (before ++ line :: rest) = .error failure := by
  rw [readLines_append_eq, hbefore, Attempt.ok_bind, readLines_cons, hline, Attempt.error_bind,
    Attempt.error_bind]

theorem checkInside_append {rows cols : Nat} {before rest : List Triplet} {t : Triplet}
    {failure : Failure} (hbefore : ∀ u ∈ before, u.row < rows ∧ u.col < cols)
    (ht : Outside rows cols t.row t.col failure) :
    checkInside rows cols (before ++ t :: rest) = .error failure :=
  Attempt.forM_eq_error.2 ⟨before, t, rest, rfl, fun u hu => check_eq_ok.2 (hbefore u hu), ht.check⟩

/-- Why a feed is not read into a grid of so many rows and columns. -/
inductive Unfit (rows cols : Nat) (feed : Feed) : Failure → Prop
  /-- A line behind good ones is no text, or is none that can be parsed. -/
  | line {before rest : List Octets} {line : Octets} {ts : List Triplet} {failure : Failure}
      (split : lines feed.text = before ++ line :: rest) (good : readLines 1 before = .ok ts)
      (bad : readLine (before.length + 1) line = .error failure) : Unfit rows cols feed failure
  /-- The stream breaks off behind good lines. -/
  | broken {ts : List Triplet} {reason : String} (good : readAll feed.text = .ok ts)
      (fault : feed.fault = some reason) : Unfit rows cols feed (.stream (.rejected reason))
  /-- All lines are good, but a position behind good ones is outside. -/
  | position {before rest : List Triplet} {t : Triplet} {failure : Failure}
      (split : readFeed feed = .ok (before ++ t :: rest))
      (good : ∀ u ∈ before, u.row < rows ∧ u.col < cols)
      (bad : Outside rows cols t.row t.col failure) : Unfit rows cols feed failure

theorem Unfit.readInside {rows cols : Nat} {feed : Feed} {failure : Failure}
    (h : Unfit rows cols feed failure) : readInside rows cols feed = .error failure := by
  cases h with
  | @line before rest line ts _ split good bad =>
    have hall : readAll feed.text = .error failure := by
      rw [readAll, split]
      exact readLines_append good (by rwa [Nat.add_comm])
    rw [Triplet.readInside, readFeed_of_unread hall, Attempt.error_bind]
  | broken good fault =>
    rw [Triplet.readInside, readFeed_of_fault good fault, Attempt.error_bind]
  | position split good bad =>
    rw [Triplet.readInside, split, Attempt.ok_bind, checkInside_append good bad, Attempt.error_bind]

end Triplet
end CowArrays
