import CowArrays.Compression.Settings
import CowArrays.Proofs.Compression.Filter

/-!
Compression in whatever order the rows are finished. Rows do not depend on one another, so the order
can only decide which of several failing rows is reported.
-/

namespace CowArrays

variable {p : Precision} {P Q : Pattern} {g : Grid p} {t : Scalar p} {order : List Nat}

/-! ### Tasks -/

theorem rowTask_eq {i : Nat} {columns : Columns} (h : P.rows[i]? = some columns) :
    rowTask P g t i = compressRow i columns g t := by
  rw [rowTask, Pattern.row, h]
  rfl

/-- The rows in sequence are the tasks of all rows. -/
theorem compressRows_eq_ok_iff {rows : List Columns} :
    compressRows P g t = .ok rows ↔ rows.length = P.size ∧
      ∀ i < P.size, ∃ kept, rows[i]? = some kept ∧ rowTask P g t i = .ok kept := by
  rw [compressRows, Attempt.mapM_eq_ok, List.length_zipIdx]
  refine and_congr_right fun _ => ⟨fun h i hi => ?_, fun h i x hx => ?_⟩
  · have hrow := List.getElem?_eq_getElem hi
    rw [rowTask_eq hrow]
    exact h i (P.rows[i], i) (getElem?_zipIdx.2 ⟨hrow, rfl⟩)
  · obtain ⟨hrow, rfl⟩ := getElem?_zipIdx.1 hx
    obtain ⟨kept, hkept, htask⟩ := h x.2 (List.getElem?_eq_some_iff.1 hrow).1
    rw [rowTask_eq hrow] at htask
    exact ⟨kept, hkept, htask⟩

theorem compressRows_eq_error_iff {failure : Failure} :
    compressRows P g t = .error failure ↔ ∃ i < P.size, rowTask P g t i = .error failure ∧
      ∀ k < i, ∃ kept, rowTask P g t k = .ok kept := by
  rw [compressRows, Attempt.mapM_eq_error]
  constructor
  · rintro ⟨i, x, hx, hfail, hbefore⟩
    obtain ⟨hrow, rfl⟩ := getElem?_zipIdx.1 hx
    have hi := (List.getElem?_eq_some_iff.1 hrow).1
    refine ⟨x.2, hi, (rowTask_eq hrow).trans hfail, fun k hk => ?_⟩
    have hrow' := List.getElem?_eq_getElem (Nat.lt_trans hk hi)
    rw [rowTask_eq hrow']
    exact hbefore k hk (_, k) (getElem?_zipIdx.2 ⟨hrow', rfl⟩)
  · rintro ⟨i, hi, hfail, hbefore⟩
    have hrow := List.getElem?_eq_getElem hi
    rw [rowTask_eq hrow] at hfail
    refine ⟨i, (P.rows[i], i), getElem?_zipIdx.2 ⟨hrow, rfl⟩, hfail, fun k hk x hx => ?_⟩
    obtain ⟨hrow', rfl⟩ := getElem?_zipIdx.1 hx
    obtain ⟨kept, hkept⟩ := hbefore x.2 hk
    exact ⟨kept, (rowTask_eq hrow').symm.trans hkept⟩

/-- All tasks of an order, each result with its row. -/
def finishAll (order : List Nat) (P : Pattern) (g : Grid p) (t : Scalar p) :
    Attempt (List (Nat × Columns)) :=
  order.mapM fun i => do return (i, ← rowTask P g t i)

theorem compressInOrder_eq : compressInOrder order P g t = do
    checkCompression P g t
    let finished ← finishAll order P g t
    return ⟨← reassemble P.size finished⟩ := rfl

theorem mem_finishAll {finished : List (Nat × Columns)} (h : finishAll order P g t = .ok finished)
    {i : Nat} {kept : Columns} :
    (i, kept) ∈ finished ↔ i ∈ order ∧ rowTask P g t i = .ok kept := by
  have ⟨hlength, hall⟩ := Attempt.mapM_eq_ok.1 h
  have hpair {k : Nat} {x : Nat × Columns} (hx : (do return (k, ← rowTask P g t k)) = .ok x) :
      x.1 = k ∧ rowTask P g t k = .ok x.2 := by
    obtain ⟨y, hy, heq⟩ := Attempt.bind_eq_ok.1 hx
    obtain rfl := Except.ok.inj heq
    exact ⟨rfl, hy⟩
  constructor
  · intro hmem
    obtain ⟨k, hk⟩ := List.mem_iff_getElem?.1 hmem
    have hlt : k < order.length := hlength ▸ (List.getElem?_eq_some_iff.1 hk).1
    have horder := List.getElem?_eq_getElem hlt
    obtain ⟨x, hx, htask⟩ := hall k order[k] horder
    obtain rfl := Option.some.inj (hk.symm.trans hx)
    obtain ⟨hi, hkept⟩ := hpair htask
    have hi : i = order[k] := hi
    rw [hi]
    exact ⟨List.getElem_mem hlt, hkept⟩
  · rintro ⟨hmem, hkept⟩
    obtain ⟨k, hk⟩ := List.mem_iff_getElem?.1 hmem
    obtain ⟨x, hx, htask⟩ := hall k i hk
    obtain ⟨hi, hkept'⟩ := hpair htask
    obtain rfl := Except.ok.inj (hkept.symm.trans hkept')
    have heq : (i, x.2) = x := Prod.ext hi.symm rfl
    rw [heq]
    exact List.mem_iff_getElem?.2 ⟨k, hx⟩

theorem finishAll_eq_error {failure : Failure} (h : finishAll order P g t = .error failure) :
    ∃ i ∈ order, rowTask P g t i = .error failure := by
  obtain ⟨k, i, hk, hfail, -⟩ := Attempt.mapM_eq_error.1 h
  exact ⟨i, List.mem_iff_getElem?.2 ⟨k, hk⟩,
    (Attempt.bind_eq_error_of_ok fun kept => ⟨(i, kept), rfl⟩).1 hfail⟩

theorem finishAll_ok (h : ∀ i ∈ order, ∃ kept, rowTask P g t i = .ok kept) :
    ∃ finished, finishAll order P g t = .ok finished := by
  cases hf : finishAll order P g t with
  | ok finished => exact ⟨finished, rfl⟩
  | error failure =>
    obtain ⟨i, hi, hfail⟩ := finishAll_eq_error hf
    obtain ⟨kept, hkept⟩ := h i hi
    rw [hfail] at hkept
    cases hkept

/-! ### Putting results back -/

/-- The result of a row is found among those that are finished, whatever their order. -/
theorem lookup_finished {finished : List (Nat × Columns)}
    (h : finishAll order P g t = .ok finished) {i : Nat} (hi : i ∈ order) {kept : Columns}
    (hkept : rowTask P g t i = .ok kept) : finished.lookup i = some kept := by
  cases hl : finished.lookup i with
  | none =>
    have hnone := List.lookup_eq_none_iff.1 hl (i, kept) ((mem_finishAll h).2 ⟨hi, hkept⟩)
    simp at hnone
  | some x =>
    -- whatever is found for the row is a result of its task, and a task has one result
    obtain ⟨l, r, heq, -⟩ := List.lookup_eq_some_iff.1 hl
    have hmem : (i, x) ∈ finished := by simp [heq]
    have htask := ((mem_finishAll h).1 hmem).2
    rw [htask] at hkept
    exact congrArg some (Except.ok.inj hkept)

/-- Where every row is finished, the results go together as in sequence. -/
theorem reassemble_finished {finished : List (Nat × Columns)}
    (h : finishAll order P g t = .ok finished) (hall : ∀ i < P.size, i ∈ order) :
    reassemble P.size finished = compressRows P g t := by
  have htask (i : Nat) (hi : i < P.size) : ∃ kept, rowTask P g t i = .ok kept := by
    obtain ⟨k, hk⟩ := List.mem_iff_getElem?.1 (hall i hi)
    obtain ⟨x, -, hx⟩ := (Attempt.mapM_eq_ok.1 h).2 k i hk
    obtain ⟨kept, hkept, -⟩ := Attempt.bind_eq_ok.1 hx
    exact ⟨kept, hkept⟩
  cases hrows : compressRows P g t with
  | error failure =>
    obtain ⟨i, hi, hfail, -⟩ := compressRows_eq_error_iff.1 hrows
    obtain ⟨kept, hkept⟩ := htask i hi
    rw [hfail] at hkept
    cases hkept
  | ok rows =>
    have ⟨hlength, hrow⟩ := compressRows_eq_ok_iff.1 hrows
    refine Attempt.mapM_eq_ok.2 ⟨by rw [hlength, List.length_range], fun i x hx => ?_⟩
    obtain ⟨hlt, hget⟩ := List.getElem?_eq_some_iff.1 hx
    have hi : i < P.size := by simpa using hlt
    obtain rfl : i = x := by simpa using hget
    obtain ⟨kept, hkept, hok⟩ := hrow i hi
    refine ⟨kept, hkept, ?_⟩
    rw [lookup_finished h (hall i hi) hok]

/-! ### Agreement -/

/-- What a compressor may come to, measured against compression in sequence. -/
structure Agrees (P : Pattern) (g : Grid p) (t : Scalar p) (result : Attempt Pattern) : Prop where
  /-- It succeeds when that does, with the same pattern. -/
  ok : ∀ Q, result = .ok Q ↔ compress P g t = .ok Q
  /-- It fails when that does. -/
  fails : (∃ failure, result = .error failure) ↔ ∃ failure, compress P g t = .error failure
  /-- The checks of the input come first in both. -/
  checks : ∀ failure, checkCompression P g t = .error failure →
    result = .error failure ∧ compress P g t = .error failure
  /-- Where a single row fails, its failure is reported by both. -/
  single : ∀ i failure, checkCompression P g t = .ok () → i < P.size →
    rowTask P g t i = .error failure →
    (∀ k < P.size, k ≠ i → ∃ kept, rowTask P g t k = .ok kept) →
    result = .error failure ∧ compress P g t = .error failure
  /-- Behind the checks it reports the failure of some row that fails. -/
  row : ∀ failure, checkCompression P g t = .ok () → result = .error failure →
    ∃ i < P.size, rowTask P g t i = .error failure

/-- Behind its checks compression fails with a row. -/
theorem exists_rowTask_eq_error {failure : Failure} (hcheck : checkCompression P g t = .ok ())
    (h : compress P g t = .error failure) : ∃ i < P.size, rowTask P g t i = .error failure := by
  rcases compress_eq_error.1 h with h | ⟨-, h⟩
  · rw [hcheck] at h
    cases h
  · obtain ⟨i, hi, hfail, -⟩ := compressRows_eq_error_iff.1 h
    exact ⟨i, hi, hfail⟩

/-- A compressor agrees if it has the patterns of compression in sequence, makes the same checks
first, and fails with rows only. -/
theorem agrees_of {result : Attempt Pattern} (hok : ∀ Q, result = .ok Q ↔ compress P g t = .ok Q)
    (hchecks : ∀ failure, checkCompression P g t = .error failure → result = .error failure)
    (hrow : ∀ failure, checkCompression P g t = .ok () → result = .error failure →
      ∃ i < P.size, rowTask P g t i = .error failure) : Agrees P g t result := by
  constructor
  case ok => exact hok
  case fails =>
    constructor
    · rintro ⟨failure, h⟩
      cases hc : compress P g t with
      | ok Q =>
        rw [(hok Q).2 hc] at h
        cases h
      | error failure' => exact ⟨failure', rfl⟩
    · rintro ⟨failure, h⟩
      cases hr : result with
      | ok Q =>
        rw [(hok Q).1 hr] at h
        cases h
      | error failure' => exact ⟨failure', rfl⟩
  case checks =>
    intro failure h
    exact ⟨hchecks failure h, compress_eq_error.2 (.inl h)⟩
  case single =>
    intro i failure hcheck hi hfail hothers
    -- whatever fails at a row fails at this one
    have hsame (failure' : Failure) (h : ∃ k < P.size, rowTask P g t k = .error failure') :
        failure' = failure := by
      obtain ⟨k, hk, hfail'⟩ := h
      by_cases hki : k = i
      · rw [hki, hfail] at hfail'
        exact (Except.error.inj hfail').symm
      · obtain ⟨kept, hkept⟩ := hothers k hk hki
        rw [hfail'] at hkept
        cases hkept
    have hnot (Q : Pattern) : compress P g t ≠ .ok Q := by
      intro hQ
      obtain ⟨kept, -, hkept⟩ := (compressRows_eq_ok_iff.1 (compress_eq_ok.1 hQ).2).2 i hi
      rw [hfail] at hkept
      cases hkept
    constructor
    · cases hr : result with
      | ok Q => exact absurd ((hok Q).1 hr) (hnot Q)
      | error failure' => rw [hsame failure' (hrow failure' hcheck hr)]
    · cases hc : compress P g t with
      | ok Q => exact absurd hc (hnot Q)
      | error failure' => rw [hsame failure' (exists_rowTask_eq_error hcheck hc)]
  case row => exact hrow

theorem agrees_compress : Agrees P g t (compress P g t) := by
  exact agrees_of (fun _ => Iff.rfl) (fun failure h => compress_eq_error.2 (.inl h))
    fun failure hcheck h => exists_rowTask_eq_error hcheck h

theorem agrees_compressInOrder (h : order.Perm (List.range P.size)) :
    Agrees P g t (compressInOrder order P g t) := by
  have hmem (i : Nat) : i ∈ order ↔ i < P.size := by rw [h.mem_iff, List.mem_range]
  -- all rows are in the order, so results that are put back are those in sequence
  have hfinished {finished : List (Nat × Columns)} (hf : finishAll order P g t = .ok finished) :
      reassemble P.size finished = compressRows P g t :=
    reassemble_finished hf fun i hi => (hmem i).2 hi
  rw [compressInOrder_eq]
  refine agrees_of (fun Q => ?_) (fun failure hcheck => by rw [hcheck]; rfl) ?_
  · rw [compress_eq_ok, Attempt.seq_eq_ok]
    refine and_congr_right fun _ => ?_
    constructor
    · intro hQ
      obtain ⟨finished, hf, hrest⟩ := Attempt.bind_eq_ok.1 hQ
      obtain ⟨rows, hrows, heq⟩ := Attempt.bind_eq_ok.1 hrest
      obtain rfl := Except.ok.inj heq
      rwa [hfinished hf] at hrows
    · intro hrows
      have hall := (compressRows_eq_ok_iff.1 hrows).2
      have htasks (i : Nat) (hi : i ∈ order) : ∃ kept, rowTask P g t i = .ok kept := by
        obtain ⟨kept, -, hkept⟩ := hall i ((hmem i).1 hi)
        exact ⟨kept, hkept⟩
      obtain ⟨finished, hf⟩ := finishAll_ok htasks
      rw [hf, Attempt.ok_bind, hfinished hf, hrows]
      rfl
  · intro failure hcheck hfail
    rw [hcheck, Attempt.ok_bind] at hfail
    cases hf : finishAll order P g t with
    | error failure' =>
      rw [hf] at hfail
      obtain rfl : failure' = failure := Except.error.inj hfail
      obtain ⟨i, hi, htask⟩ := finishAll_eq_error hf
      exact ⟨i, (hmem i).1 hi, htask⟩
    | ok finished =>
      rw [hf, Attempt.ok_bind, hfinished hf] at hfail
      have hrows := (Attempt.bind_eq_error_of_ok fun rows => ⟨(⟨rows⟩ : Pattern), rfl⟩).1 hfail
      obtain ⟨i, hi, htask, -⟩ := compressRows_eq_error_iff.1 hrows
      exact ⟨i, hi, htask⟩

/-- Settings compress as in sequence, whichever way they choose. -/
theorem agrees_settings (s : Settings) {schedule : Schedule}
    (h : (schedule P.size).Perm (List.range P.size)) :
    Agrees P g (.ofDouble s.threshold) (s.compress schedule P g) := by
  rw [Settings.compress]
  split
  · exact agrees_compressInOrder h
  · exact agrees_compress

/-- Compression agrees under every schedule: directly, for any order in which the rows are finished,
and with settings, whichever way they choose, at the threshold that they narrow to. -/
theorem compress_agrees (P : Pattern) (g : Grid p) :
    (∀ (t : Scalar p) (order : List Nat), order.Perm (List.range P.size) →
      Agrees P g t (compressInOrder order P g t)) ∧
    ∀ (s : Settings) (schedule : Schedule), (schedule P.size).Perm (List.range P.size) →
      Agrees P g (.ofDouble s.threshold) (s.compress schedule P g) :=
  ⟨fun _ _ horder => agrees_compressInOrder horder, fun s _ hschedule => agrees_settings s hschedule⟩

/-- Two rows that both reach outside the grid, the last one finished first. In parallel it is that
one which is reported, in sequence the first. -/
theorem compress_agrees_reversed :
    let P : Pattern := .ofLists [[3], [2]]
    let g : Grid .double := .filled 2 1 .unit
    let s : Settings := ⟨.zero, true, 0⟩
    let backwards : Schedule := fun n => (List.range n).reverse
    (backwards P.size).Perm (List.range P.size) ∧
      s.compress backwards P g = .error (.refused (.indexOutOfRange .column 2 1)) ∧
      compress P g (.ofDouble s.threshold) = .error (.refused (.indexOutOfRange .column 3 1)) ∧
      Agrees P g (.ofDouble s.threshold) (s.compress backwards P g) :=
  ⟨by decide, rfl, rfl, (compress_agrees _ _).2 _ _ (by decide)⟩

end CowArrays
