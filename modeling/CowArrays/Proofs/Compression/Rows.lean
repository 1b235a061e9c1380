import CowArrays.Compression.Filter
import CowArrays.Proofs.Storage.Grids
import Mathlib.Tactic.ByContra

/-!
Compression of one row: what it keeps, and which column decides when it fails.
-/

namespace CowArrays

variable {p : Precision}

namespace Columns

variable {test : Nat → Attempt Bool}

theorem keepFrom_eq_ok {cs : List Nat} {kept : { kept : List Nat // kept.Sublist cs }}
    (h : keepFrom test cs = .ok kept) :
    (∀ c ∈ cs, ∃ b, test c = .ok b) ∧ ∀ c, c ∈ kept.1 ↔ c ∈ cs ∧ test c = .ok true := by
  induction cs with
  | nil =>
    obtain rfl := Except.ok.inj h
    exact ⟨nofun, fun c => ⟨nofun, fun h => nomatch h.1⟩⟩
  | cons c cs ih =>
    obtain ⟨passes, hpasses, hrest⟩ := Attempt.bind_eq_ok.1 h
    obtain ⟨rest, hkeep, heq⟩ := Attempt.bind_eq_ok.1 hrest
    have ⟨hall, hmem⟩ := ih hkeep
    obtain rfl := Except.ok.inj heq
    refine ⟨List.forall_mem_cons.2 ⟨⟨passes, hpasses⟩, hall⟩, fun d => ?_⟩
    by_cases hd : d = c
    · subst hd
      cases passes with
      | true => simp [hpasses]
      | false => simp [hpasses, hmem]
    · cases passes with
      | true => simp [hd, hmem]
      | false => simp [hd, hmem]

theorem keepFrom_eq_error {cs : List Nat} (hcs : cs.Pairwise (· < ·)) {failure : Failure} :
    keepFrom test cs = .error failure ↔ ∃ c ∈ cs, test c = .error failure ∧
      ∀ d ∈ cs, d < c → ∃ b, test d = .ok b := by
  induction cs with
  | nil => exact ⟨nofun, fun ⟨_, h, _⟩ => nomatch h⟩
  | cons c cs ih =>
    have ⟨hc, hcs⟩ := List.pairwise_cons.1 hcs
    rw [keepFrom]
    cases hpasses : test c with
    | error failure' =>
      constructor
      · intro h
        obtain rfl : failure' = failure := Except.error.inj h
        -- the columns ascend, so none of the rest is less than the first
        refine ⟨c, List.mem_cons_self, hpasses, fun d hd hlt => ?_⟩
        rcases List.mem_cons.1 hd with rfl | hd
        · exact absurd hlt (Nat.lt_irrefl d)
        · exact absurd (hc d hd) (Nat.lt_asymm hlt)
      · rintro ⟨d, hd, hfail, hbefore⟩
        rcases List.mem_cons.1 hd with rfl | hd
        · rw [hpasses] at hfail
          exact congrArg Except.error (Except.error.inj hfail)
        · -- a later column cannot decide, since the first one is less and its test fails
          obtain ⟨b, hb⟩ := hbefore c List.mem_cons_self (hc d hd)
          rw [hpasses] at hb
          cases hb
    | ok passes =>
      rw [Attempt.ok_bind]
      refine (Attempt.bind_eq_error_of_ok fun kept => ?_).trans ((ih hcs).trans ⟨?_, ?_⟩)
      · cases passes with
        | true => exact ⟨⟨c :: kept.1, kept.2.cons_cons c⟩, rfl⟩
        | false => exact ⟨⟨kept.1, kept.2.cons c⟩, rfl⟩
      · rintro ⟨d, hd, hfail, hbefore⟩
        refine ⟨d, List.mem_cons_of_mem c hd, hfail, fun e he hlt => ?_⟩
        rcases List.mem_cons.1 he with rfl | he
        · exact ⟨passes, hpasses⟩
        · exact hbefore e he hlt
      · rintro ⟨d, hd, hfail, hbefore⟩
        rcases List.mem_cons.1 hd with rfl | hd
        · rw [hpasses] at hfail
          cases hfail
        · exact ⟨d, hd, hfail, fun e he hlt => hbefore e (List.mem_cons_of_mem c he) hlt⟩

theorem keep_eq_ok {s kept : Columns} (h : s.keep test = .ok kept) :
    (∀ c ∈ s, ∃ b, test c = .ok b) ∧ ∀ c, c ∈ kept ↔ c ∈ s ∧ test c = .ok true := by
  obtain ⟨⟨cs, hsub⟩, hkeep, heq⟩ := Attempt.bind_eq_ok.1 h
  obtain rfl := Except.ok.inj heq
  exact keepFrom_eq_ok hkeep

theorem keep_eq_error {s : Columns} {failure : Failure} :
    s.keep test = .error failure ↔ ∃ c ∈ s, test c = .error failure ∧
      ∀ d ∈ s, d < c → ∃ b, test d = .ok b := by
  refine (Attempt.bind_eq_error_of_ok fun kept => ?_).trans (keepFrom_eq_error s.ascending)
  exact ⟨⟨kept.1, s.ascending.sublist kept.2⟩, rfl⟩

end Columns

variable {g : Grid p} {i : Nat} {columns : Columns} {t : Scalar p}

theorem test_of_lt (hi : i < g.rows) {c : Nat} (hc : c < g.cols) :
    ∃ x, g.read? i c = some x ∧ (do
      checkCol c g.cols
      return t.lt (← g.read i c).magnitude : Attempt Bool) = .ok (t.lt x.magnitude) := by
  obtain ⟨x, hx⟩ := Grid.exists_read? ⟨hi, hc⟩
  refine ⟨x, hx, ?_⟩
  rw [checkCol, checkIndex_eq_ok.2 hc, (Grid.read_of_read? hx).2]
  rfl

theorem test_of_le {c : Nat} (hc : g.cols ≤ c) : (do
    checkCol c g.cols
    return t.lt (← g.read i c).magnitude : Attempt Bool) =
      .error (.refused (.indexOutOfRange .column c g.cols)) := by
  rw [checkCol, checkIndex_eq_error hc]
  rfl

/-- A row that is inside a grid keeps the columns whose entries exceed the threshold. -/
theorem compressRow_eq_ok (hi : i < g.rows) {kept : Columns}
    (h : compressRow i columns g t = .ok kept) :
    (∀ c ∈ columns, c < g.cols) ∧ ∀ c, c ∈ kept ↔ c ∈ columns ∧ g.Exceeds t i c := by
  have ⟨hall, hmem⟩ := Columns.keep_eq_ok h
  have hinside : ∀ c ∈ columns, c < g.cols := by
    intro c hc
    by_contra hout
    obtain ⟨b, hb⟩ := hall c hc
    rw [test_of_le (Nat.le_of_not_lt hout)] at hb
    cases hb
  -- inside the grid a test comes to the comparison
  refine ⟨hinside, fun c => (hmem c).trans (and_congr_right fun hc => ?_)⟩
  obtain ⟨x, hx, htest⟩ := test_of_lt (t := t) hi (hinside c hc)
  rw [htest]
  constructor
  · intro hlt
    exact ⟨x, hx, Except.ok.inj hlt⟩
  · rintro ⟨y, hy, hlt⟩
    rw [hx] at hy
    exact congrArg Except.ok (Option.some.inj hy ▸ hlt)

/-- A row that is inside a grid fails at its least column that is not. -/
theorem compressRow_eq_error (hi : i < g.rows) {failure : Failure} :
    compressRow i columns g t = .error failure ↔
      ∃ c ∈ columns, g.cols ≤ c ∧ (∀ d ∈ columns, g.cols ≤ d → c ≤ d) ∧
        failure = .refused (.indexOutOfRange .column c g.cols) := by
  refine Columns.keep_eq_error.trans (exists_congr fun c => and_congr_right fun hc => ?_)
  constructor
  · rintro ⟨hfail, hbefore⟩
    by_cases hout : g.cols ≤ c
    · rw [test_of_le hout] at hfail
      refine ⟨hout, fun d hd hdout => ?_, (Except.error.inj hfail).symm⟩
      by_contra hlt
      obtain ⟨b, hb⟩ := hbefore d hd (Nat.lt_of_not_le hlt)
      rw [test_of_le hdout] at hb
      cases hb
    · obtain ⟨x, -, htest⟩ := test_of_lt (t := t) hi (Nat.lt_of_not_le hout)
      rw [htest] at hfail
      cases hfail
  · rintro ⟨hout, hleast, rfl⟩
    refine ⟨test_of_le hout, fun d hd hlt => ?_⟩
    have hinside : d < g.cols := by
      by_contra hdout
      exact absurd (hleast d hd (Nat.le_of_not_lt hdout)) (Nat.not_le_of_lt hlt)
    obtain ⟨x, -, htest⟩ := test_of_lt (t := t) hi hinside
    exact ⟨_, htest⟩

theorem compressRow_ok (hi : i < g.rows) (hc : ∀ c ∈ columns, c < g.cols) :
    ∃ kept, compressRow i columns g t = .ok kept := by
  cases h : compressRow i columns g t with
  | ok kept => exact ⟨kept, rfl⟩
  | error failure =>
    obtain ⟨c, hcmem, hout, -⟩ := (compressRow_eq_error hi).1 h
    exact absurd (hc c hcmem) (Nat.not_lt.2 hout)

end CowArrays
