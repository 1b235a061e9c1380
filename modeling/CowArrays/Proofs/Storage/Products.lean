import CowArrays.Grid.Product
import CowArrays.Proofs.Storage.Grids

/-!
Products of a grid and a line. The two walks over a grid come to the same sums, one for each row,
and every sum is put in its place whatever was there before.
-/

namespace CowArrays

/-- A walk over numbered items is a walk over the numbers that fetches each item. -/
theorem Attempt.foldlM_zipIdx {α β : Type} {f : Nat → Attempt α} {n : Nat} {ys : List α}
    (h : (List.range n).mapM f = .ok ys) (step : β → α → Nat → Attempt β) (b : β) :
    ys.zipIdx.foldlM (fun b yk => step b yk.1 yk.2) b =
      (List.range n).foldlM (fun b k => do step b (← f k) k) b := by
  induction n generalizing ys with
  | zero =>
    obtain rfl : [] = ys := Except.ok.inj h
    rfl
  | succ n ih =>
    rw [List.range_succ, List.mapM_append] at h
    obtain ⟨before, hbefore, hrest⟩ := Attempt.bind_eq_ok.1 h
    obtain ⟨last, hlast, heq⟩ := Attempt.bind_eq_ok.1 hrest
    obtain rfl : before ++ last = ys := Except.ok.inj heq
    obtain ⟨y, hy, hnil⟩ := Attempt.bind_eq_ok.1 hlast
    obtain rfl : [y] = last := Except.ok.inj hnil
    have hlength : before.length = n := by
      simpa using (Attempt.mapM_eq_ok.1 hbefore).1
    rw [List.zipIdx_append, List.foldlM_append, ih hbefore, List.range_succ, List.foldlM_append]
    simp [hlength, hy]

namespace Grid

variable {p : Precision} {g : Grid p} {x y : Line p} {i : Nat}

/-! ### Sums of rows -/

/-- The sum of the products of the first `n` entries of a row and of a line, from the left and
starting from zero. Every product and every sum is rounded. -/
def rowSum? (g : Grid p) (x : Line p) (i : Nat) : Nat → Option (Scalar p)
  | 0 => some .zero
  | n + 1 => do return (← g.rowSum? x i n) + (← g.read? i n) * (← x[n]?)

theorem foldlM_entry_eq_ok {n : Nat} {a : Scalar p} :
    (List.range n).foldlM (fun sum j => do return sum + (← g.entry i j) * (← x.entry j))
      Scalar.zero = .ok a ↔ g.rowSum? x i n = some a := by
  induction n generalizing a with
  | zero => simp [rowSum?]
  | succ n ih =>
    rw [List.range_succ, List.foldlM_append, Attempt.bind_eq_ok, rowSum?, Option.bind_eq_bind,
      Option.bind_eq_some_iff]
    refine exists_congr fun sum => and_congr ih ?_
    simp [Attempt.bind_eq_ok, Option.bind_eq_some_iff, entry_eq_ok, Line.entry_eq_ok]

theorem exists_rowSum? (hi : i < g.rows) {n : Nat} (hn : n ≤ g.cols) (hx : n ≤ x.size) :
    ∃ a, g.rowSum? x i n = some a := by
  induction n with
  | zero => exact ⟨.zero, rfl⟩
  | succ n ih =>
    obtain ⟨a, ha⟩ := ih (by omega) (by omega)
    obtain ⟨b, hb⟩ := exists_read? (g := g) ⟨hi, hn⟩
    have hlast : x[n]? = some x[n] := Array.getElem?_eq_getElem hx
    exact ⟨a + b * x[n], by simp [rowSum?, ha, hb, hlast]⟩

/-! ### Rows one after the other -/

theorem exists_fillRows {rows : Nat} (hy : rows ≤ y.size) {sum : Nat → Attempt (Scalar p)}
    (hsum : ∀ i < rows, ∃ a, sum i = .ok a) :
    ∃ u, (List.range rows).foldlM (fun y i => do y.put i (← sum i)) y = .ok u ∧
      u.size = y.size ∧ ∀ i < rows, ∀ a, sum i = .ok a → u[i]? = some a := by
  induction rows with
  | zero => exact ⟨y, rfl, rfl, fun i hi => absurd hi (Nat.not_lt_zero i)⟩
  | succ n ih =>
    obtain ⟨u, hu, hsize, hentries⟩ := ih (by omega) fun i hi => hsum i (Nat.lt_succ_of_lt hi)
    obtain ⟨a, ha⟩ := hsum n (Nat.lt_succ_self n)
    have hn : n < u.size := by omega
    have hput : u.put n a = .ok (u.set n a) := dif_pos hn
    refine ⟨u.set n a, ?_, (Array.size_set hn).trans hsize, fun i hi b hb => ?_⟩
    · rw [List.range_succ, List.foldlM_append, hu]
      simp [ha, hput]
    · rw [Array.getElem?_set]
      by_cases hin : n = i
      · subst hin
        rw [if_pos rfl, Except.ok.inj (ha.symm.trans hb)]
      · -- the rows before this one are done, and stay as they are
        rw [if_neg hin]
        exact hentries i (by omega) b hb

theorem exists_applyByEntry (hx : x.size = g.cols) (hy : y.size = g.rows) :
    ∃ u, g.applyByEntry x y = .ok u ∧ u.size = y.size ∧
      ∀ i < g.rows, u[i]? = g.rowSum? x i g.cols := by
  have hsum (i : Nat) (hi : i < g.rows) : ∃ a, g.rowSum? x i g.cols = some a :=
    exists_rowSum? hi (Nat.le_refl _) (Nat.le_of_eq hx.symm)
  obtain ⟨u, hu, hsize, hentries⟩ := exists_fillRows (y := y) (Nat.le_of_eq hy.symm) fun i hi =>
    (hsum i hi).imp fun a ha => foldlM_entry_eq_ok.2 ha
  refine ⟨u, hu, hsize, fun i hi => ?_⟩
  obtain ⟨a, ha⟩ := hsum i hi
  rw [hentries i hi a (foldlM_entry_eq_ok.2 ha), ha]

/-- The walks agree on all grids and lines, also on those that do not fit. -/
theorem applyByRow_eq (g : Grid p) (x y : Line p) : g.applyByRow x y = g.applyByEntry x y := by
  refine Attempt.foldlM_congr (fun y i hi => ?_) y
  have hsum := Attempt.foldlM_zipIdx (mapM_entry (List.mem_range.1 hi))
    (fun sum a j => do return sum + a * (← x.entry j)) Scalar.zero
  exact congrArg (· >>= fun sum => y.put i sum) hsum

theorem apply_byRow (g : Grid p) : g.apply .byRow = g.apply .byEntry := by
  funext x y
  unfold apply
  rw [applyByRow_eq]

/-! ### Products that fit -/

theorem checkFactors_eq_ok : g.checkFactors x y = .ok () ↔ x.size = g.cols ∧ y.size = g.rows := by
  rw [checkFactors, Attempt.seq_eq_ok, checkShape_eq_ok, checkShape_eq_ok]
  simp [Line.shape, eq_comm]

theorem exists_apply (walk : Walk) (hx : x.size = g.cols) (hy : y.size = g.rows) :
    ∃ u, g.apply walk x y = .ok u ∧ u.size = y.size ∧
      ∀ i < g.rows, u[i]? = g.rowSum? x i g.cols := by
  have hwalk : g.apply walk x y = g.applyByEntry x y := by
    cases walk with
    | byEntry => exact if_pos ⟨hx, hy⟩
    | byRow =>
      rw [apply_byRow]
      exact if_pos ⟨hx, hy⟩
  rw [hwalk]
  exact exists_applyByEntry hx hy

/-- Nothing breaches within a product that fits. -/
theorem apply_eq_breach {walk : Walk} :
    g.apply walk x y = .error .breach ↔ ¬(x.size = g.cols ∧ y.size = g.rows) := by
  by_cases hfits : x.size = g.cols ∧ y.size = g.rows
  · obtain ⟨u, hu, -⟩ := exists_apply walk hfits.1 hfits.2
    simp [hu, hfits]
  · simp [apply, hfits]

end Grid
end CowArrays
