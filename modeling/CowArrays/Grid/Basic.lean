import CowArrays.Line.Basic

/-!
Grids, the two-dimensional storages: entries in one array, row by row. As with lines, the raw
operations breach when they are misused and the guarded ones check first.
-/

namespace CowArrays

structure Grid (p : Precision) where
  rows : Nat
  cols : Nat
  entries : Array (Scalar p)
  size_eq : entries.size = rows * cols
  deriving DecidableEq

def positions (rows cols : Nat) : List (Nat × Nat) :=
  (List.range rows).flatMap fun i => (List.range cols).map fun j => (i, j)

theorem mem_positions {rows cols i j : Nat} :
    (i, j) ∈ positions rows cols ↔ i < rows ∧ j < cols := by
  simp [positions]

theorem index_lt {rows cols i j : Nat} (hi : i < rows) (hj : j < cols) :
    i * cols + j < rows * cols :=
  calc i * cols + j < i * cols + cols := Nat.add_lt_add_left hj _
    _ = (i + 1) * cols := (Nat.succ_mul i cols).symm
    _ ≤ rows * cols := Nat.mul_le_mul_right cols hi

theorem index_inj {cols i j a b : Nat} (hj : j < cols) (hb : b < cols) :
    i * cols + j = a * cols + b ↔ i = a ∧ j = b := by
  refine ⟨fun h => ?_, fun ⟨hi, hj⟩ => hi ▸ hj ▸ rfl⟩
  have hdiv := congrArg (· / cols) h
  have hmod := congrArg (· % cols) h
  have hpos : 0 < cols := Nat.lt_of_le_of_lt (Nat.zero_le _) hj
  simp [Nat.mul_comm _ cols, Nat.mul_add_div hpos, Nat.div_eq_of_lt hj, Nat.div_eq_of_lt hb,
    Nat.mod_eq_of_lt hj, Nat.mod_eq_of_lt hb] at hdiv hmod
  exact ⟨hdiv, hmod⟩

namespace Grid

variable {p : Precision}

theorem index_lt_size (g : Grid p) {i j : Nat} (h : i < g.rows ∧ j < g.cols) :
    i * g.cols + j < g.entries.size :=
  g.size_eq ▸ index_lt h.1 h.2

/-! ### Raw operations -/

def shape (g : Grid p) : Shape := (g.rows, g.cols)

def filled (rows cols : Nat) (x : Scalar p) : Grid p :=
  ⟨rows, cols, Array.replicate (rows * cols) x, Array.size_replicate⟩

def ofEntries? (rows cols : Nat) (entries : Array (Scalar p)) : Option (Grid p) :=
  if h : entries.size = rows * cols then some ⟨rows, cols, entries, h⟩ else none

def entry (g : Grid p) (i j : Nat) : Attempt (Scalar p) :=
  if h : i < g.rows ∧ j < g.cols then
    have := g.index_lt_size h
    .ok g.entries[i * g.cols + j]
  else .error .breach

def put (g : Grid p) (i j : Nat) (x : Scalar p) : Attempt (Grid p) :=
  if h : i < g.rows ∧ j < g.cols then
    .ok { g with
      entries := g.entries.set (i * g.cols + j) x (g.index_lt_size h)
      size_eq := by simp [g.size_eq] }
  else .error .breach

def scale (g : Grid p) (a : Scalar p) : Grid p :=
  { g with entries := g.entries.map (· * a), size_eq := by simp [g.size_eq] }

def bump (g : Grid p) (i j : Nat) (x : Scalar p) : Attempt (Grid p) := do
  g.put i j ((← g.entry i j) + x)

def addScaled (g : Grid p) (a : Scalar p) (h : Grid p) : Attempt (Grid p) :=
  if e : g.shape = h.shape then
    .ok { g with
      entries := Array.zipWith (fun x y => x + a * y) g.entries h.entries
      size_eq := by simp_all [shape, g.size_eq, h.size_eq] }
  else .error .breach

def lane (g : Grid p) (i : Nat) : List (Scalar p) :=
  (g.entries.toList.drop (i * g.cols)).take g.cols

def toRows (g : Grid p) : List (List (Scalar p)) := (List.range g.rows).map g.lane

/-! ### Guarded operations -/

def checkRange (g : Grid p) (i j : Nat) : Attempt Unit :=
  if i < g.rows ∧ j < g.cols then .ok () else .error (.outOfRange (.matrix i j g.rows g.cols))

def read (g : Grid p) (i j : Nat) : Attempt (Scalar p) := do
  g.checkRange i j
  g.entry i j

def read? (g : Grid p) (i j : Nat) : Option (Scalar p) :=
  if h : i < g.rows ∧ j < g.cols then
    have := g.index_lt_size h
    some g.entries[i * g.cols + j]
  else none

def add (g : Grid p) (i j : Nat) (x : Scalar p) : Attempt (Grid p) := do
  g.checkRange i j
  g.bump i j x

def same (g h : Grid p) : Bool :=
  g.shape == h.shape && (g.entries.zip h.entries).all fun (x, y) => x.same y

/-! ### Entries after a change -/

/-- A put inside the grid changes one entry and nothing else. -/
theorem put_of_lt (g : Grid p) {i j : Nat} (x : Scalar p) (h : i < g.rows ∧ j < g.cols) :
    ∃ g', g.put i j x = .ok g' ∧ g'.shape = g.shape ∧
      ∀ a b, g'.read? a b = if a = i ∧ b = j then some x else g.read? a b := by
  refine ⟨_, dif_pos h, rfl, fun a b => ?_⟩
  unfold read?
  by_cases hab : a < g.rows ∧ b < g.cols
  · simp only [hab, and_self, dite_true, Array.getElem_set]
    have := @index_inj g.cols i j a b h.2 hab.2
    grind
  · grind

def toTriples (g : Grid p) : Attempt (List (Nat × Nat × Scalar p)) :=
  (positions g.rows g.cols).mapM fun (i, j) => return (i, j, ← g.entry i j)

end Grid
end CowArrays
