import CowArrays.Grid.Combine
import CowArrays.Proofs.Scalar.Order
import CowArrays.Proofs.Scalar.Products
import CowArrays.Proofs.Storage.Grids
import Mathlib.Data.List.Nodup

/-!
Sums of two grids: with a multiple of all entries, and with those entries that exceed a bound. The
entries that exceed it have their positions in the order of the rows and no position twice, so each
entry of the sum has one term at most.
-/

namespace CowArrays.Grid

variable {p : Precision} {g h : Grid p} {i j : Nat} {eps : Scalar p}

/-! ### Multiples of a grid -/

theorem addScaled_eq_breach {a : Scalar p} :
    g.addScaled a h = .error .breach ↔ g.shape ≠ h.shape := by
  unfold addScaled
  split <;> simp_all

theorem exists_addScaled (hgh : g.shape = h.shape) (a : Scalar p) :
    ∃ g', g.addScaled a h = .ok g' ∧ g'.shape = g.shape ∧ ∀ i j x y,
      g.read? i j = some x → h.read? i j = some y → g'.read? i j = some (x + a * y) := by
  refine ⟨_, dif_pos hgh, rfl, fun i j x y hx hy => ?_⟩
  have ⟨hrows, hcols⟩ := shape_eq_iff.1 hgh
  unfold read? at hx hy ⊢
  grind

/-! ### Entries that exceed a bound -/

def exceeding (h : Grid p) (eps : Scalar p) : List (Nat × Nat × Scalar p) :=
  (positions h.rows h.cols).filterMap fun (i, j) =>
    ((h.read? i j).filter fun y => eps.lt y.magnitude).map fun y => (i, j, y)

theorem mem_exceeding {y : Scalar p} :
    (i, j, y) ∈ h.exceeding eps ↔ h.read? i j = some y ∧ eps.lt y.magnitude = true := by
  simp only [exceeding, List.mem_filterMap, Option.map_eq_some_iff, Option.filter_eq_some_iff]
  constructor
  · rintro ⟨a, -, z, hz, heq⟩
    cases heq
    exact hz
  · intro hy
    exact ⟨(i, j), mem_positions.2 (read_of_read? hy.1).1, y, hy, rfl⟩

theorem exceeds_iff : h.Exceeds eps i j ↔ ∃ y, (i, j, y) ∈ h.exceeding eps :=
  exists_congr fun _ => mem_exceeding.symm

theorem exceeding_eq_nil : h.exceeding eps = [] ↔ ∀ i j, ¬h.Exceeds eps i j := by
  simp only [exceeds_iff, List.eq_nil_iff_forall_not_mem, Prod.forall, not_exists]

theorem pairwise_exceeding (h : Grid p) (eps : Scalar p) :
    (h.exceeding eps).Pairwise fun a b => ¬(a.1 = b.1 ∧ a.2.1 = b.2.1) := by
  have hnodup : (positions h.rows h.cols).Nodup :=
    List.Nodup.product List.nodup_range List.nodup_range
  refine List.Pairwise.filterMap _ (fun a b hab u hu v hv heq => hab ?_) hnodup
  obtain ⟨y, -, rfl⟩ := Option.map_eq_some_iff.1 hu
  obtain ⟨z, -, rfl⟩ := Option.map_eq_some_iff.1 hv
  exact Prod.ext heq.1 heq.2

theorem exists_anyExceeding (h : Grid p) (eps : Scalar p) :
    ∃ found, h.anyExceeding eps = .ok found ∧ (found = true ↔ ∃ i j, h.Exceeds eps i j) := by
  have htest (ij : Nat × Nat) (hij : ij ∈ positions h.rows h.cols) :
      (do return eps.lt (← h.read ij.1 ij.2).magnitude : Attempt Bool) =
        .ok ((h.read? ij.1 ij.2).any fun y => eps.lt y.magnitude) := by
    obtain ⟨y, hy⟩ := exists_read? (mem_positions.1 hij)
    rw [(read_of_read? hy).2, hy]
    rfl
  refine ⟨_, Attempt.anyM_eq_any htest, ?_⟩
  rw [List.any_eq_true]
  constructor
  · rintro ⟨⟨i, j⟩, -, hany⟩
    exact ⟨i, j, (Option.any_eq_true _ _).1 hany⟩
  · rintro ⟨i, j, y, hy, hlt⟩
    exact ⟨(i, j), mem_positions.2 (read_of_read? hy).1, by rw [hy]; exact hlt⟩

theorem addExceeding_eq (g h : Grid p) (eps : Scalar p) :
    g.addExceeding h eps = (h.exceeding eps).foldlM (fun g e => g.add e.1 e.2.1 e.2.2) g := by
  rw [exceeding, List.foldlM_filterMap]
  refine Attempt.foldlM_congr (fun g ⟨i, j⟩ hij => ?_) g
  obtain ⟨y, hy⟩ := exists_read? (mem_positions.1 hij)
  simp only [(read_of_read? hy).2, hy]
  cases hlt : eps.lt y.magnitude with
  | true => simp [hlt, Option.filter]
  | false => simp [hlt, Option.filter]

/-- Terms at different positions, added one after the other, each change the entry at their
position. -/
theorem exists_addEach {l : List (Nat × Nat × Scalar p)}
    (hinside : ∀ e ∈ l, e.1 < g.rows ∧ e.2.1 < g.cols)
    (hapart : l.Pairwise fun a b => ¬(a.1 = b.1 ∧ a.2.1 = b.2.1)) :
    ∃ g', l.foldlM (fun g e => g.add e.1 e.2.1 e.2.2) g = .ok g' ∧ g'.shape = g.shape ∧
      (∀ i j y, (i, j, y) ∈ l → g'.read? i j = (g.read? i j).map (· + y)) ∧
      ∀ i j, (∀ y, (i, j, y) ∉ l) → g'.read? i j = g.read? i j := by
  induction l generalizing g with
  | nil => exact ⟨g, rfl, rfl, nofun, fun _ _ _ => rfl⟩
  | cons e l ih =>
    obtain ⟨he, hrest⟩ := List.forall_mem_cons.1 hinside
    obtain ⟨hfirst, hapart⟩ := List.pairwise_cons.1 hapart
    obtain ⟨g₁, hg₁, hshape₁, hread₁⟩ := add_of_lt he e.2.2
    have ⟨hrows, hcols⟩ := shape_eq_iff.1 hshape₁
    obtain ⟨g', hg', hshape', hin, hout⟩ := ih (g := g₁) (by rwa [hrows, hcols]) hapart
    refine ⟨g', ?_, hshape'.trans hshape₁, fun i j y hy => ?_, fun i j hnot => ?_⟩
    · rw [List.foldlM_cons, hg₁]
      exact hg'
    · rcases List.mem_cons.1 hy with rfl | hmem
      · -- the term is the first one, and no other is at its position
        rw [hout i j fun z hz => hfirst _ hz ⟨rfl, rfl⟩, hread₁, if_pos ⟨rfl, rfl⟩]
      · have hne : ¬(i = e.1 ∧ j = e.2.1) := fun heq => hfirst _ hmem ⟨heq.1.symm, heq.2.symm⟩
        rw [hin i j y hmem, hread₁, if_neg hne]
    · have hne : ¬(i = e.1 ∧ j = e.2.1) := by
        rintro ⟨rfl, rfl⟩
        exact hnot e.2.2 List.mem_cons_self
      rw [hout i j fun y hy => hnot y (List.mem_cons_of_mem e hy), hread₁, if_neg hne]

theorem inside_of_mem_exceeding (hgh : g.shape = h.shape) :
    ∀ e ∈ h.exceeding eps, e.1 < g.rows ∧ e.2.1 < g.cols := by
  intro e he
  have ⟨hrows, hcols⟩ := shape_eq_iff.1 hgh
  rw [hrows, hcols]
  exact (read_of_read? (mem_exceeding.1 he).1).1

/-- An entry of the sum has a second term exactly where that exceeds the bound. -/
theorem exists_addExceeding (hgh : g.shape = h.shape) (eps : Scalar p) :
    ∃ g', g.addExceeding h eps = .ok g' ∧ g'.shape = g.shape ∧ ∀ i j x y,
      g.read? i j = some x → h.read? i j = some y →
        g'.read? i j = some (if eps.lt y.magnitude then x + y else x) := by
  obtain ⟨g', hg', hshape, hin, hout⟩ :=
    exists_addEach (inside_of_mem_exceeding hgh) (pairwise_exceeding h eps)
  refine ⟨g', (addExceeding_eq g h eps).trans hg', hshape, fun i j x y hx hy => ?_⟩
  by_cases hlt : eps.lt y.magnitude = true
  · rw [hin i j y (mem_exceeding.2 ⟨hy, hlt⟩), hx, if_pos hlt]
    rfl
  · have hnot (z : Scalar p) (hz : (i, j, z) ∈ h.exceeding eps) : False := by
      obtain ⟨hread, hexceeds⟩ := mem_exceeding.1 hz
      obtain rfl := Option.some.inj (hread.symm.trans hy)
      exact hlt hexceeds
    rw [hout i j hnot, hx, if_neg hlt]

/-! ### Bounds below zero -/

/-- Whether two grids have the same entries bit for bit, where any two NaNs count as the same. -/
def Agrees (g h : Grid p) : Prop :=
  g.shape = h.shape ∧ ∀ i j x y, g.read? i j = some x → h.read? i j = some y →
    x = y ∨ x.isNaN = true ∧ y.isNaN = true

/-- Whether `a` is the sum of `g` and `h` without the terms that are NaNs, and `b` the one with them:
they are the same, bit for bit, wherever the term is not a NaN. -/
def DropsNaNs (g h a b : Grid p) : Prop :=
  a.shape = g.shape ∧ b.shape = g.shape ∧ ∀ i j x y,
    g.read? i j = some x → h.read? i j = some y →
      (y.isNaN = false → a.read? i j = some (x + y) ∧ b.read? i j = some (x + y)) ∧
      (y.isNaN = true → a.read? i j = some x ∧ ∃ z, b.read? i j = some z ∧ z.isNaN = true)

/-- A bound below zero lets all terms through but NaNs, which a multiple of the grid carries on. -/
theorem exists_dropsNaNs (hgh : g.shape = h.shape) (heps : eps.lt .zero = true) :
    ∃ a b, g.addExceeding h eps = .ok a ∧ g.addScaled .unit h = .ok b ∧ g.DropsNaNs h a b := by
  obtain ⟨a, ha, hashape, hareads⟩ := exists_addExceeding hgh eps
  obtain ⟨b, hb, hbshape, hbreads⟩ := exists_addScaled hgh .unit
  refine ⟨a, b, ha, hb, hashape, hbshape, fun i j x y hx hy => ⟨fun hnan => ?_, fun hnan => ?_⟩⟩
  · rw [hareads i j x y hx hy, hbreads i j x y hx hy, Scalar.unit_mul hnan,
      if_pos (Scalar.lt_magnitude_of_lt_zero heps hnan)]
    exact ⟨rfl, rfl⟩
  · rw [hareads i j x y hx hy, if_neg (Scalar.not_lt_magnitude_of_isNaN hnan)]
    exact ⟨rfl, _, hbreads i j x y hx hy,
      Scalar.isNaN_add_right x (Scalar.isNaN_mul_right .unit hnan)⟩

/-- The two sums agree where a NaN is added to nothing but NaNs. -/
theorem DropsNaNs.agrees_iff {a b : Grid p} (hsums : g.DropsNaNs h a b) (hgh : g.shape = h.shape) :
    a.Agrees b ↔ ∀ i j x y, g.read? i j = some x → h.read? i j = some y →
      y.isNaN = true → x.isNaN = true := by
  obtain ⟨ha, hb, hreads⟩ := hsums
  constructor
  · intro hagrees i j x y hx hy hnan
    obtain ⟨hax, z, hbz, hz⟩ := (hreads i j x y hx hy).2 hnan
    rcases hagrees.2 i j x z hax hbz with heq | hboth
    · rw [heq, hz]
    · exact hboth.1
  · intro hall
    refine ⟨ha.trans hb.symm, fun i j x' y' hx' hy' => ?_⟩
    have ⟨hrows, hcols⟩ := shape_eq_iff.1 ha
    have ⟨hrows', hcols'⟩ := shape_eq_iff.1 hgh
    have hij : i < g.rows ∧ j < g.cols := by
      rw [← hrows, ← hcols]
      exact (read_of_read? hx').1
    obtain ⟨x, hx⟩ := exists_read? hij
    obtain ⟨y, hy⟩ := exists_read? (g := h) (by rwa [← hrows', ← hcols'])
    cases hnan : y.isNaN with
    | false =>
      obtain ⟨hax, hbx⟩ := (hreads i j x y hx hy).1 hnan
      exact .inl (Option.some.inj (hx'.symm.trans (hax.trans (hbx.symm.trans hy'))))
    | true =>
      obtain ⟨hax, z, hbz, hz⟩ := (hreads i j x y hx hy).2 hnan
      obtain rfl := Option.some.inj (hx'.symm.trans hax)
      obtain rfl := Option.some.inj (hy'.symm.trans hbz)
      exact .inr ⟨hall i j _ y hx hy hnan, hz⟩

end CowArrays.Grid
