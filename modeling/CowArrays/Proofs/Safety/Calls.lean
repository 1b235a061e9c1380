import CowArrays.Proofs.Compression.Schedules
import CowArrays.Proofs.Triplet.Grammar
import CowArrays.Proofs.Triplet.RoundTrip

/-!
Calls that do not misuse what they call. An attempt is shielded if it does not breach, and goes out of
range in given ways only; it is safe if it does neither. Checks and raw operations behind them are put
together to walks over grids, to compression, and to the reading and writing of triplet texts.
-/

namespace CowArrays

variable {p : Precision} {R : RangeFault → Prop}

/-! ### What may come of a call -/

/-- No breach, and no range fault but some. -/
def Failure.Tame (R : RangeFault → Prop) : Failure → Prop
  | breach => False
  | outOfRange fault => R fault
  | _ => True

/-- Whether an attempt does not breach, and goes out of range in some ways only. -/
abbrev Shielded {α : Type} (R : RangeFault → Prop) (x : Attempt α) : Prop :=
  x.FailsOnly (Failure.Tame R)

/-- Whether an attempt does not breach, and does not go out of range either. -/
abbrev Safe {α : Type} (x : Attempt α) : Prop := Shielded (fun _ => False) x

theorem Shielded.mono {α : Type} {Q : RangeFault → Prop} {x : Attempt α} (hx : Shielded R x)
    (h : ∀ fault, R fault → Q fault) : Shielded Q x := by
  refine Attempt.FailsOnly.mono (fun failure htame => ?_) hx
  cases failure with
  | outOfRange fault => exact h fault htame
  | breach => exact htame
  | refused | stream | parse | json | unknown => trivial

open Attempt.FailsOnly (ok of_ok error bind map ite mapM foldlM forM anyM allM)

/-! ### Checks -/

theorem shielded_checkIndex {axis : Axis} {index bound : Nat} :
    Shielded R (checkIndex axis index bound) :=
  ite ok (error trivial)

theorem shielded_checkShape {expected found : Shape} : Shielded R (checkShape expected found) :=
  ite ok (error trivial)

theorem shielded_checkCompression {P : Pattern} {g : Grid p} {t : Scalar p} :
    Shielded R (checkCompression P g t) := by
  intro failure hfail
  rcases checkCompression_eq_error.1 hfail with ⟨-, rfl⟩ | ⟨-, -, rfl⟩
  · trivial
  · trivial

theorem Line.shielded_checkRange {v : Line p} {i : Nat} (h : v.size ≤ i → R (.vector i v.size)) :
    Shielded R (v.checkRange i) := by
  by_cases hi : i < v.size
  · exact of_ok ⟨(), checkRange_eq_ok.2 hi⟩
  · rw [checkRange_eq_error (Nat.le_of_not_lt hi)]
    exact error (h (Nat.le_of_not_lt hi))

theorem Line.shielded_read {v : Line p} {i : Nat} (h : v.size ≤ i → R (.vector i v.size)) :
    Shielded R (v.read i) :=
  bind (shielded_checkRange h) fun _ hcheck => of_ok ⟨_, entry_of_lt (checkRange_eq_ok.1 hcheck)⟩

theorem Grid.shielded_checkRange {g : Grid p} {i j : Nat}
    (h : ¬(i < g.rows ∧ j < g.cols) → R (.matrix i j g.rows g.cols)) :
    Shielded R (g.checkRange i j) := by
  by_cases hij : i < g.rows ∧ j < g.cols
  · exact of_ok ⟨(), checkRange_eq_ok.2 hij⟩
  · rw [checkRange_eq_error hij]
    exact error (h hij)

theorem Grid.shielded_read {g : Grid p} {i j : Nat}
    (h : ¬(i < g.rows ∧ j < g.cols) → R (.matrix i j g.rows g.cols)) :
    Shielded R (g.read i j) :=
  bind (shielded_checkRange h) fun _ hcheck => of_ok (entry_ok (checkRange_eq_ok.1 hcheck))

theorem Pattern.shielded_row {x : Pattern} {i : Nat} (h : x.size ≤ i → R (.pattern i x.size)) :
    Shielded R (x.row i) := by
  by_cases hi : i < x.size
  · exact of_ok ⟨x.rows[i], row_of_lt hi⟩
  · rw [row_eq_error (Nat.le_of_not_lt hi)]
    exact error (h (Nat.le_of_not_lt hi))

/-! ### Walks over whole grids -/

namespace Grid

variable {g h : Grid p}

theorem shielded_trace : Shielded R g.trace := by
  refine foldlM fun _ i hi => bind (of_ok (read_ok ?_)) fun _ _ => ok
  exact Nat.lt_min.1 (List.mem_range.1 hi)

theorem shielded_diagonal : Shielded R g.diagonal :=
  mapM fun _ hi => of_ok (read_ok (Nat.lt_min.1 (List.mem_range.1 hi)))

theorem shielded_toTriples : Shielded R g.toTriples :=
  mapM fun _ hij => bind (of_ok (entry_ok (mem_positions.1 hij))) fun _ _ => ok

theorem shielded_anyExceeding {eps : Scalar p} : Shielded R (g.anyExceeding eps) :=
  anyM fun _ hij => bind (of_ok (read_ok (mem_positions.1 hij))) fun _ _ => ok

/-- The shapes are compared before any entry is. -/
theorem shielded_isTransposed {tolerance : Scalar p} :
    Shielded R (g.isTransposed h tolerance) := by
  unfold isTransposed
  split
  · rename_i hshape
    refine allM fun i hi => allM fun j hj => ?_
    have hinside : i < g.rows ∧ j < g.cols := ⟨List.mem_range.1 hi, List.mem_range.1 hj⟩
    have hmirrored : j < h.rows ∧ i < h.cols := by omega
    exact bind (of_ok (read_ok hinside)) fun _ _ => bind (of_ok (read_ok hmirrored)) fun _ _ => ok
  · exact ok

theorem shielded_checkFactors {x y : Line p} : Shielded R (g.checkFactors x y) :=
  bind shielded_checkShape fun _ _ => shielded_checkShape

end Grid

/-! ### Compression -/

section Compression

variable {P : Pattern} {g : Grid p} {t : Scalar p}

/-- Within a row, the column is looked at before the entry, so only the row can be outside. -/
theorem shielded_compressRow {i : Nat} {columns : Columns}
    (h : ∀ j < g.cols, ¬i < g.rows → R (.matrix i j g.rows g.cols)) :
    Shielded R (compressRow i columns g t) := by
  intro failure hfail
  obtain ⟨j, -, htest, -⟩ := Columns.keep_eq_error.1 hfail
  refine bind shielded_checkIndex (fun _ hcheck => ?_) failure htest
  have hj := checkIndex_eq_ok.1 hcheck
  exact bind (Grid.shielded_read fun hout => h j hj fun hi => hout ⟨hi, hj⟩) fun _ _ => ok

theorem safe_rowTask (hsize : P.size = g.rows) {i : Nat} (hi : i < P.size) :
    Safe (rowTask P g t i) := by
  rw [rowTask_eq (List.getElem?_eq_getElem hi)]
  exact shielded_compressRow fun _ _ hout => hout (hsize ▸ hi)

/-- What agrees with compression in sequence fails in the checks, or with the task of a row that is
there. -/
theorem Agrees.safe {result : Attempt Pattern} (h : Agrees P g t result) : Safe result := by
  intro failure hfail
  cases hcheck : checkCompression P g t with
  | error failure' =>
    obtain rfl := Except.error.inj (hfail.symm.trans (h.checks failure' hcheck).1)
    exact shielded_checkCompression failure hcheck
  | ok _ =>
    obtain ⟨i, hi, htask⟩ := h.row failure hcheck hfail
    exact safe_rowTask (checkCompression_eq_ok.1 hcheck).2 hi failure htask

theorem Compressor.safe_run (c : Compressor p) : Safe (c.run P g) := by
  cases c with
  | sequential threshold => exact agrees_compress.safe
  | parallel threshold => exact (agrees_compressInOrder (.refl _)).safe
  | settings s => exact (agrees_settings s (.refl _)).safe

end Compression

/-! ### Triplet texts -/

namespace Triplet

variable {g : Grid p} {x : Pattern}

theorem shielded_readAll (text : Octets) : Shielded R (readAll text) := by
  intro failure hfail
  obtain ⟨before, line, rest, ms, -, -, hoffends⟩ := readAll_eq_error_iff.1 hfail
  cases hoffends with
  | notText | misspelled => trivial

theorem shielded_readFeed (feed : Feed) : Shielded R (readFeed feed) := by
  refine bind (shielded_readAll feed.text) fun ts _ => ?_
  cases feed.fault with
  | none => exact ok
  | some reason => exact error trivial

theorem shielded_readInside {rows cols : Nat} {feed : Feed} :
    Shielded R (readInside rows cols feed) := by
  refine bind (shielded_readFeed feed) fun ts _ => bind ?_ fun _ _ => ok
  exact forM fun t _ => bind shielded_checkIndex fun _ _ => shielded_checkIndex

/-- All positions are checked before the first entry is read. -/
theorem shielded_write {σ : Type} (sink : Sink σ) : Shielded R (write sink g x) := by
  refine bind (bind ?_ fun _ hcheck => ?_) fun _ _ => ok
  · exact forM fun ij _ => bind shielded_checkIndex fun _ _ => shielded_checkIndex
  · have hinside := checkPositions_eq_ok.1 hcheck
    exact mapM fun ij hij => bind (of_ok (Grid.read_ok (hinside ij hij))) fun _ _ => ok

end Triplet

theorem Sink.Delivery.shielded_outcome {σ : Type} (d : Delivery σ) : Shielded R d.outcome := by
  unfold outcome
  split
  · exact ok
  · exact error trivial

theorem shielded_writeWithin {limit : Option Nat} {g : Grid p} {x : Pattern} :
    Shielded R (writeWithin limit g x) := by
  cases limit with
  | none | some room =>
    exact bind (Triplet.shielded_write _) fun d _ => d.shielded_outcome

end CowArrays
