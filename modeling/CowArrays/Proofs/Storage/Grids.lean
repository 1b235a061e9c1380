import CowArrays.Grid.Build
import CowArrays.Proofs.Storage.Lines

/-!
Raw operations on grids breach where they are misused. Where their guards hold they do not, and leave
the shape as it is.
-/

namespace CowArrays.Grid

variable {p : Precision} {g h : Grid p} {i j : Nat}

theorem checkRange_eq_ok : g.checkRange i j = .ok () ↔ i < g.rows ∧ j < g.cols := by
  unfold checkRange
  split <;> simp_all

theorem checkRange_eq_error (h : ¬(i < g.rows ∧ j < g.cols)) :
    g.checkRange i j = .error (.outOfRange (.matrix i j g.rows g.cols)) :=
  if_neg h

theorem shape_eq_iff : g.shape = h.shape ↔ g.rows = h.rows ∧ g.cols = h.cols := Prod.ext_iff

/-- An operation whose result is known succeeds, with a grid of the same shape. -/
theorem ok_of_exists {made : Attempt (Grid p)} {shape : Shape} {P : Grid p → Prop}
    (h : ∃ g', made = .ok g' ∧ g'.shape = shape ∧ P g') :
    ∃ g', made = .ok g' ∧ g'.shape = shape := by
  obtain ⟨g', hg', hshape, -⟩ := h
  exact ⟨g', hg', hshape⟩

/-! ### Single entries -/

theorem put_ok (hij : i < g.rows ∧ j < g.cols) (x : Scalar p) :
    ∃ g', g.put i j x = .ok g' ∧ g'.shape = g.shape :=
  ok_of_exists (g.put_of_lt x hij)

theorem entry_ok (hij : i < g.rows ∧ j < g.cols) : ∃ x, g.entry i j = .ok x := ⟨_, dif_pos hij⟩

theorem entry_eq_breach : g.entry i j = .error .breach ↔ ¬(i < g.rows ∧ j < g.cols) := by
  unfold entry
  split <;> simp_all

theorem put_eq_breach {x : Scalar p} :
    g.put i j x = .error .breach ↔ ¬(i < g.rows ∧ j < g.cols) := by
  unfold put
  split <;> simp_all

theorem entry_eq_ok {x : Scalar p} : g.entry i j = .ok x ↔ g.read? i j = some x := by
  unfold entry read?
  split <;> simp

theorem read_ok (hij : i < g.rows ∧ j < g.cols) : ∃ x, g.read i j = .ok x := by
  rw [read, checkRange_eq_ok.2 hij]
  exact entry_ok hij

theorem read_of_read? {x : Scalar p} (hx : g.read? i j = some x) :
    (i < g.rows ∧ j < g.cols) ∧ g.read i j = .ok x := by
  unfold read? at hx
  split at hx
  · rename_i hij
    refine ⟨hij, ?_⟩
    rw [read, checkRange_eq_ok.2 hij, ← Option.some.inj hx]
    exact dif_pos hij
  · cases hx

theorem read_eq_ok {x : Scalar p} : g.read i j = .ok x ↔ g.read? i j = some x := by
  rw [read, Attempt.seq_eq_ok, checkRange_eq_ok, entry_eq_ok]
  exact and_iff_right_of_imp fun hx => (read_of_read? hx).1

theorem exists_read? (hij : i < g.rows ∧ j < g.cols) : ∃ x, g.read? i j = some x :=
  ⟨_, dif_pos hij⟩

theorem mem_entries_of_read? {x : Scalar p} (hx : g.read? i j = some x) : x ∈ g.entries := by
  unfold read? at hx
  split at hx
  · exact Option.some.inj hx ▸ Array.getElem_mem _
  · cases hx

theorem read?_eq_none (hij : ¬(i < g.rows ∧ j < g.cols)) : g.read? i j = none := dif_neg hij

def Exceeds (g : Grid p) (t : Scalar p) (i j : Nat) : Prop :=
  ∃ x, g.read? i j = some x ∧ t.lt x.magnitude = true

theorem eq_of_read? (hshape : g.shape = h.shape)
    (hread : ∀ i j, i < g.rows ∧ j < g.cols → g.read? i j = h.read? i j) : g = h := by
  obtain ⟨rows, cols, entries, hsize⟩ := g
  obtain ⟨rows', cols', entries', hsize'⟩ := h
  obtain ⟨rfl, rfl⟩ : rows = rows' ∧ cols = cols' := Prod.mk.inj hshape
  have hentries : entries = entries' := by
    refine Array.ext (hsize.trans hsize'.symm) fun k hk hk' => ?_
    rw [hsize] at hk
    -- a place in the array is that of a row and a column
    have hpos : 0 < cols := Nat.pos_of_ne_zero fun h0 => by simp [h0] at hk
    have hij : k / cols < rows ∧ k % cols < cols :=
      ⟨Nat.div_lt_of_lt_mul (Nat.mul_comm rows cols ▸ hk), Nat.mod_lt k hpos⟩
    have hget := hread (k / cols) (k % cols) hij
    simpa only [read?, dif_pos hij, Nat.div_add_mod', Option.some.injEq] using hget
  subst hentries
  rfl

theorem read?_filled {rows cols : Nat} (hij : i < rows ∧ j < cols) (x : Scalar p) :
    (filled rows cols x).read? i j = some x :=
  (dif_pos hij).trans (congrArg some (Array.getElem_replicate _))

/-- Adding to an entry inside changes this entry and no other. -/
theorem bump_of_lt (hij : i < g.rows ∧ j < g.cols) (x : Scalar p) :
    ∃ g', g.bump i j x = .ok g' ∧ g'.shape = g.shape ∧
      ∀ a b, g'.read? a b = if a = i ∧ b = j then (g.read? i j).map (· + x) else g.read? a b := by
  obtain ⟨y, hy⟩ := exists_read? hij
  have hentry : g.entry i j = .ok y := by
    have hread := (read_of_read? hy).2
    rwa [read, checkRange_eq_ok.2 hij] at hread
  obtain ⟨g', hg', hshape, hread⟩ := g.put_of_lt (y + x) hij
  refine ⟨g', ?_, hshape, fun a b => by rw [hread, hy]; rfl⟩
  rw [bump, hentry]
  exact hg'

theorem add_of_lt (hij : i < g.rows ∧ j < g.cols) (x : Scalar p) :
    ∃ g', g.add i j x = .ok g' ∧ g'.shape = g.shape ∧
      ∀ a b, g'.read? a b = if a = i ∧ b = j then (g.read? i j).map (· + x) else g.read? a b := by
  rw [add, checkRange_eq_ok.2 hij]
  exact bump_of_lt hij x

theorem bump_ok (hij : i < g.rows ∧ j < g.cols) (x : Scalar p) :
    ∃ g', g.bump i j x = .ok g' ∧ g'.shape = g.shape :=
  ok_of_exists (bump_of_lt hij x)

/-! ### Rows, columns and whole grids -/

theorem putAll_of_lt {α : Type} (g : Grid p) {xs : List α} (row col : α → Nat)
    (new : Nat → Nat → Scalar p) (hxs : ∀ a ∈ xs, row a < g.rows ∧ col a < g.cols) :
    ∃ g', xs.foldlM (fun g a => g.put (row a) (col a) (new (row a) (col a))) g = .ok g' ∧
      g'.shape = g.shape ∧ ∀ i j, g'.read? i j =
        if xs.any fun a => i = row a ∧ j = col a then some (new i j) else g.read? i j := by
  induction xs generalizing g with
  | nil => exact ⟨g, rfl, rfl, fun i j => rfl⟩
  | cons a xs ih =>
    obtain ⟨ha, hrest⟩ := List.forall_mem_cons.1 hxs
    obtain ⟨g₁, hg₁, hshape₁, hread₁⟩ := g.put_of_lt (new (row a) (col a)) ha
    have ⟨hrows, hcols⟩ := shape_eq_iff.1 hshape₁
    obtain ⟨g', hg', hshape', hread'⟩ := ih g₁ (by rwa [hrows, hcols])
    refine ⟨g', ?_, hshape'.trans hshape₁, fun i j => ?_⟩
    · rw [List.foldlM_cons, hg₁]
      exact hg'
    · rw [hread', hread₁, List.any_cons]
      by_cases ha : i = row a ∧ j = col a
      · simp [ha]
      · simp [ha]

/-- Values put at all positions inside that pass a test replace the entries there and no others. -/
theorem putAll_eq_ite {α : Type} (g : Grid p) {xs : List α} (row col : α → Nat)
    (new : Nat → Nat → Scalar p) (hxs : ∀ a ∈ xs, row a < g.rows ∧ col a < g.cols)
    (target : Nat → Nat → Prop) [∀ i j, Decidable (target i j)]
    (hat : ∀ i j, i < g.rows ∧ j < g.cols → ((∃ a ∈ xs, i = row a ∧ j = col a) ↔ target i j)) :
    ∃ g', xs.foldlM (fun g a => g.put (row a) (col a) (new (row a) (col a))) g = .ok g' ∧
      g'.shape = g.shape ∧
      ∀ i j, g'.read? i j = (g.read? i j).map fun y => if target i j then new i j else y := by
  obtain ⟨g', hg', hshape, hread⟩ := g.putAll_of_lt row col new hxs
  refine ⟨g', hg', hshape, fun i j => ?_⟩
  have hany : (xs.any fun a => i = row a ∧ j = col a) = true ↔ ∃ a ∈ xs, i = row a ∧ j = col a := by
    simp
  rw [hread]
  by_cases hij : i < g.rows ∧ j < g.cols
  · obtain ⟨y, hy⟩ := exists_read? hij
    simp only [hany, hat i j hij, hy, Option.map_some, apply_ite some]
  · have hnot : ¬∃ a ∈ xs, i = row a ∧ j = col a := by
      rintro ⟨a, ha, rfl, rfl⟩
      exact hij (hxs a ha)
    rw [if_neg (mt hany.1 hnot), read?_eq_none hij]
    rfl

theorem exists_putAll (g : Grid p) (new : Nat → Nat → Scalar p) :
    ∃ g', (positions g.rows g.cols).foldlM (fun g a => g.put a.1 a.2 (new a.1 a.2)) g = .ok g' ∧
      g'.shape = g.shape ∧ ∀ i j, g'.read? i j = (g.read? i j).map fun _ => new i j := by
  have hall (i j : Nat) (hij : i < g.rows ∧ j < g.cols) :
      (∃ a ∈ positions g.rows g.cols, i = a.1 ∧ j = a.2) ↔ True :=
    iff_true_intro ⟨(i, j), mem_positions.2 hij, rfl, rfl⟩
  simpa only [if_true] using
    g.putAll_eq_ite Prod.fst Prod.snd new (fun _ ha => mem_positions.1 ha) (fun _ _ => True) hall

theorem exists_clear (g : Grid p) : ∃ g', g.clear = .ok g' ∧ g'.shape = g.shape ∧
    ∀ i j, g'.read? i j = (g.read? i j).map fun _ => .zero :=
  g.exists_putAll fun _ _ => .zero

/-- All that is left of a grid is its shape. -/
theorem clear_eq_filled (g : Grid p) : g.clear = .ok (filled g.rows g.cols .zero) := by
  obtain ⟨cleared, hcleared, hshape, hread⟩ := g.exists_clear
  have ⟨hrows, hcols⟩ := shape_eq_iff.1 hshape
  rw [hcleared]
  refine congrArg Except.ok (eq_of_read? hshape fun i j hij => ?_)
  rw [hrows, hcols] at hij
  obtain ⟨x, hx⟩ := exists_read? hij
  rw [hread, hx, read?_filled hij]
  rfl

theorem clear_ok (g : Grid p) : ∃ g', g.clear = .ok g' ∧ g'.shape = g.shape :=
  ok_of_exists g.exists_clear

theorem exists_clearRow (hi : i < g.rows) : ∃ g', g.clearRow i = .ok g' ∧ g'.shape = g.shape ∧
    ∀ a b, g'.read? a b = (g.read? a b).map fun x => if a = i then .zero else x := by
  refine g.putAll_eq_ite (fun _ => i) id (fun _ _ => .zero) (fun _ hb => ⟨hi, List.mem_range.1 hb⟩)
    (fun a _ => a = i) fun a b hab => ?_
  exact ⟨fun ⟨_, _, ha, _⟩ => ha, fun ha => ⟨b, List.mem_range.2 hab.2, ha, rfl⟩⟩

theorem exists_clearCol (hj : j < g.cols) : ∃ g', g.clearCol j = .ok g' ∧ g'.shape = g.shape ∧
    ∀ a b, g'.read? a b = (g.read? a b).map fun x => if b = j then .zero else x := by
  refine g.putAll_eq_ite id (fun _ => j) (fun _ _ => .zero) (fun _ ha => ⟨List.mem_range.1 ha, hj⟩)
    (fun _ b => b = j) fun a b hab => ?_
  exact ⟨fun ⟨_, _, _, hb⟩ => hb, fun hb => ⟨a, List.mem_range.2 hab.1, rfl, hb⟩⟩

/-- A put behind other changes replaces one of the entries that they made. -/
theorem exists_put_map {g₀ : Grid p} {new : Nat → Nat → Scalar p → Scalar p}
    (hshape : g.shape = g₀.shape) (hread : ∀ a b, g.read? a b = (g₀.read? a b).map (new a b))
    (hij : i < g₀.rows ∧ j < g₀.cols) (x : Scalar p) :
    ∃ g', g.put i j x = .ok g' ∧ g'.shape = g₀.shape ∧
      ∀ a b, g'.read? a b = (g₀.read? a b).map fun y => if a = i ∧ b = j then x else new a b y := by
  obtain ⟨hrows, hcols⟩ := shape_eq_iff.1 hshape
  obtain ⟨g', hg', hshape', hread'⟩ := g.put_of_lt x (by rwa [hrows, hcols])
  refine ⟨g', hg', hshape'.trans hshape, fun a b => ?_⟩
  rw [hread', hread]
  by_cases hab : a = i ∧ b = j
  · obtain ⟨y, hy⟩ := exists_read? hij
    simp [hab, hy]
  · simp [hab]

theorem exists_unitRow (hi : i < g.rows) (hc : i < g.cols) :
    ∃ g', g.unitRow i = .ok g' ∧ g'.shape = g.shape ∧ ∀ a b, g'.read? a b =
      (g.read? a b).map fun x => if a = i ∧ b = i then .unit else if a = i then .zero else x := by
  obtain ⟨g₁, hg₁, hshape₁, hread₁⟩ := exists_clearRow hi
  obtain ⟨g₂, hg₂, hshape₂, hread₂⟩ := exists_put_map hshape₁ hread₁ ⟨hi, hc⟩ .unit
  refine ⟨g₂, ?_, hshape₂, hread₂⟩
  rw [unitRow, hg₁]
  exact hg₂

theorem exists_unitCol (hj : j < g.cols) (hr : j < g.rows) :
    ∃ g', g.unitCol j = .ok g' ∧ g'.shape = g.shape ∧ ∀ a b, g'.read? a b =
      (g.read? a b).map fun x => if a = j ∧ b = j then .unit else if b = j then .zero else x := by
  obtain ⟨g₁, hg₁, hshape₁, hread₁⟩ := exists_clearCol hj
  obtain ⟨g₂, hg₂, hshape₂, hread₂⟩ := exists_put_map hshape₁ hread₁ ⟨hr, hj⟩ .unit
  refine ⟨g₂, ?_, hshape₂, hread₂⟩
  rw [unitCol, hg₁]
  exact hg₂

theorem mapM_entry (hi : i < g.rows) : (List.range g.cols).mapM (g.entry i) = .ok (g.lane i) := by
  have hlength : (g.lane i).length = g.cols := by
    have hend : i * g.cols + g.cols ≤ g.entries.size := by
      rw [g.size_eq, ← Nat.succ_mul]
      exact Nat.mul_le_mul_right g.cols hi
    simp only [lane, List.length_take, List.length_drop, Array.length_toList]
    omega
  refine Attempt.mapM_eq_ok.2 ⟨by simp [hlength], fun j k hk => ?_⟩
  obtain ⟨hj, rfl⟩ := List.getElem?_eq_some_iff.1 hk
  have hlt : j < g.cols := by simpa using hj
  have hinside := g.index_lt_size ⟨hi, hlt⟩
  refine ⟨g.entries[i * g.cols + j], ?_, ?_⟩
  · simp [lane, hlt, hinside]
  · simp [entry, hi, hlt]

theorem exists_identity (n : Nat) : ∃ g : Grid p, identity n = .ok g ∧ g.shape = (n, n) ∧
    ∀ i j, i < n ∧ j < n → g.read? i j = some (if i = j then .unit else .zero) := by
  have hinside : ∀ i ∈ List.range n, i < n ∧ i < n :=
    fun i hi => ⟨List.mem_range.1 hi, List.mem_range.1 hi⟩
  have hdiagonal (i j : Nat) (hij : i < n ∧ j < n) :
      (∃ k ∈ List.range n, i = k ∧ j = k) ↔ i = j :=
    ⟨fun ⟨_, _, hi, hj⟩ => hi.trans hj.symm, fun heq => ⟨j, List.mem_range.2 hij.2, heq, rfl⟩⟩
  obtain ⟨g, hg, hshape, hread⟩ := (filled n n .zero : Grid p).putAll_eq_ite id id
    (fun _ _ => .unit) hinside (fun i j => i = j) hdiagonal
  refine ⟨g, hg, hshape, fun i j hij => ?_⟩
  rw [hread, read?_filled hij]
  rfl

end CowArrays.Grid
