import CowArrays.Proofs.Storage.Grids
import Mathlib.Tactic.Choose

/-!
Grids and the lists of their entries. The entries that are asked for while a grid is built, in the
order of its positions, are what it lists afterwards; nothing else is asked, whatever the asking does
besides.
-/

namespace CowArrays

/-! ### Walks over a list in any monad -/

section Walks

variable {m : Type → Type} [Monad m] [LawfulMonad m] {α β γ : Type} {l : List α}

theorem mapM_congr {f g : α → m β} (h : ∀ a ∈ l, f a = g a) : l.mapM f = l.mapM g := by
  induction l with
  | nil => rfl
  | cons a l ih =>
    obtain ⟨ha, hrest⟩ := List.forall_mem_cons.1 h
    rw [List.mapM_cons, List.mapM_cons, ha, ih hrest]

/-- What is made of the results need only be known for as many of them as there are items. -/
theorem map_mapM_congr {f : α → m β} {F G : List β → γ}
    (h : ∀ ys, ys.length = l.length → F ys = G ys) : F <$> l.mapM f = G <$> l.mapM f := by
  induction l generalizing F G with
  | nil => simp [h [] rfl]
  | cons a l ih =>
    have hrest (y : β) : (fun ys => F (y :: ys)) <$> l.mapM f = (fun ys => G (y :: ys)) <$> l.mapM f :=
      ih fun ys hys => h (y :: ys) (congrArg (· + 1) hys)
    simpa [List.mapM_cons, map_bind] using bind_congr hrest

theorem zipWith_mapM (f : α → m β) (mk : α → β → γ) (l : List α) :
    List.zipWith mk l <$> l.mapM f = l.mapM fun a => mk a <$> f a := by
  induction l with
  | nil => simp
  | cons a l ih => simp [List.mapM_cons, map_bind, ← ih]

/-- A walk with a record of its items. -/
def recorded (f : α → m β) (a : α) : StateT (List α) m β := do
  modify (· ++ [a])
  f a

theorem run_mapM_recorded (f : α → m β) (l seen : List α) :
    (l.mapM (recorded f)).run seen = (fun ys => (ys, seen ++ l)) <$> l.mapM f := by
  induction l generalizing seen with
  | nil => simp
  | cons a l ih => simp [List.mapM_cons, recorded, ih, map_bind]

end Walks

/-! ### Positions by their places -/

/-- A position is where its place in the array says. -/
theorem positions_eq_map (rows cols : Nat) :
    positions rows cols = (List.range (rows * cols)).map fun k => (k / cols, k % cols) := by
  induction rows with
  | zero => simp [positions]
  | succ rows ih =>
    have hlast : (List.range cols).map (fun j => (rows, j)) =
        ((List.range cols).map (rows * cols + ·)).map fun k => (k / cols, k % cols) := by
      rw [List.map_map]
      refine List.map_congr_left fun j hj => ?_
      have hlt : j < cols := List.mem_range.1 hj
      have hpos : 0 < cols := Nat.lt_of_le_of_lt (Nat.zero_le j) hlt
      simp [Nat.mul_comm rows, Nat.mul_add_div hpos, Nat.div_eq_of_lt hlt, Nat.mod_eq_of_lt hlt]
    have hsucc : positions (rows + 1) cols =
        positions rows cols ++ (List.range cols).map fun j => (rows, j) := by
      simp [positions, List.range_succ]
    rw [hsucc, ih, Nat.succ_mul, List.range_add, List.map_append, hlast]

@[simp] theorem length_positions (rows cols : Nat) : (positions rows cols).length = rows * cols := by
  simp [positions_eq_map]

theorem getElem?_positions {rows cols k i j : Nat} :
    (positions rows cols)[k]? = some (i, j) ↔ (i < rows ∧ j < cols) ∧ i * cols + j = k := by
  constructor
  · intro h
    refine ⟨mem_positions.1 (List.mem_of_getElem? h), ?_⟩
    rw [positions_eq_map, List.getElem?_map] at h
    obtain ⟨n, hn, heq⟩ := Option.map_eq_some_iff.1 h
    obtain ⟨-, rfl⟩ : k < rows * cols ∧ k = n := by simpa [List.getElem?_eq_some_iff] using hn
    obtain ⟨rfl, rfl⟩ := Prod.mk.inj heq
    exact Nat.div_add_mod' k cols
  · rintro ⟨⟨hi, hj⟩, rfl⟩
    have hpos : 0 < cols := Nat.lt_of_le_of_lt (Nat.zero_le j) hj
    rw [positions_eq_map, List.getElem?_map, List.getElem?_range (index_lt hi hj)]
    simp [Nat.mul_comm i, Nat.mul_add_div hpos, Nat.div_eq_of_lt hj, Nat.mod_eq_of_lt hj]

namespace Grid

variable {p : Precision} {rows cols i j : Nat} {x : Scalar p} {xs : List (Scalar p)}

/-! ### Entries by their places -/

theorem read?_of_lt {g : Grid p} (hij : i < g.rows ∧ j < g.cols) :
    g.read? i j = g.entries.toList[i * g.cols + j]? :=
  (dif_pos hij).trans (Array.getElem?_toList.trans (Array.getElem?_eq_getElem _)).symm

def triples (g : Grid p) : List (Nat × Nat × Scalar p) :=
  (positions g.rows g.cols).zipWith (fun ij x => (ij.1, ij.2, x)) g.entries.toList

@[simp] theorem length_triples (g : Grid p) : g.triples.length = g.rows * g.cols := by
  simp [triples, g.size_eq]

theorem map_triples (g : Grid p) :
    g.triples.map (fun e => (e.1, e.2.1)) = positions g.rows g.cols := by
  rw [triples, List.map_zipWith, ← List.map_uncurry_zip_eq_zipWith]
  exact List.map_fst_zip (by simp [g.size_eq])

theorem mem_triples {g : Grid p} : (i, j, x) ∈ g.triples ↔ g.read? i j = some x := by
  simp only [triples, List.mem_iff_getElem?, List.getElem?_zipWith_eq_some]
  constructor
  · rintro ⟨k, ij, y, hk, hy, heq⟩
    obtain ⟨hij, rfl⟩ := getElem?_positions.1 hk
    cases heq
    exact (read?_of_lt hij).trans hy
  · intro hx
    obtain ⟨hij, -⟩ := read_of_read? hx
    exact ⟨_, (i, j), x, getElem?_positions.2 ⟨hij, rfl⟩, read?_of_lt hij ▸ hx, rfl⟩

theorem toTriples_eq (g : Grid p) : g.toTriples = .ok g.triples := by
  refine Attempt.mapM_eq_ok.2 ⟨by simp, fun k (i, j) hk => ?_⟩
  obtain ⟨hij, rfl⟩ := getElem?_positions.1 hk
  obtain ⟨x, hx⟩ := exists_read? hij
  refine ⟨(i, j, x), ?_, by simp [entry_eq_ok.2 hx]⟩
  exact List.getElem?_zipWith_eq_some.2 ⟨(i, j), x, hk, read?_of_lt hij ▸ hx, rfl⟩

def listing (g : Grid p) : Attempt (Shape × List (Nat × Nat × Scalar p)) :=
  g.toTriples.map fun ts => (g.shape, ts)

theorem listing_eq (g : Grid p) : g.listing = .ok (g.shape, g.triples) := by
  rw [listing, toTriples_eq]
  rfl

/-! ### Grids that are partly filled -/

def ofList (rows cols : Nat) (xs : List (Scalar p)) : Grid p :=
  ⟨rows, cols, Array.ofFn fun k : Fin (rows * cols) => xs[k.1]?.getD .zero, Array.size_ofFn⟩

theorem read?_ofList (hij : i < rows ∧ j < cols) :
    (ofList rows cols xs).read? i j = some (xs[i * cols + j]?.getD .zero) :=
  (dif_pos hij).trans (congrArg some (Array.getElem_ofFn _))

theorem ofList_nil (rows cols : Nat) : ofList rows cols [] = (filled rows cols .zero : Grid p) := by
  refine eq_of_read? rfl fun i j (hij : i < rows ∧ j < cols) => ?_
  rw [read?_ofList hij, read?_filled hij]
  rfl

theorem put_ofList (hij : i < rows ∧ j < cols) (hnext : i * cols + j = xs.length) (x : Scalar p) :
    (ofList rows cols xs).put i j x = .ok (ofList rows cols (xs ++ [x])) := by
  obtain ⟨g, hg, hshape, hread⟩ := (ofList rows cols xs).put_of_lt x hij
  rw [hg]
  refine congrArg Except.ok (eq_of_read? hshape fun a b hab => ?_)
  have hab' : a < rows ∧ b < cols := by
    obtain ⟨hrows, hcols⟩ := shape_eq_iff.1 hshape
    rwa [hrows, hcols] at hab
  rw [hread, read?_ofList hab', read?_ofList hab']
  have hplace : a * cols + b = xs.length ↔ a = i ∧ b = j := hnext ▸ index_inj hab'.2 hij.2
  rcases Nat.lt_trichotomy (a * cols + b) xs.length with h | h | h
  · rw [if_neg fun hat => Nat.ne_of_lt h (hplace.2 hat), List.getElem?_append_left h]
  · rw [if_pos (hplace.1 h), h, List.getElem?_concat_length]
    rfl
  · have hout : (xs ++ [x]).length ≤ a * cols + b := by simpa using Nat.succ_le_of_lt h
    rw [if_neg fun hat => Nat.ne_of_gt h (hplace.2 hat), List.getElem?_eq_none hout,
      List.getElem?_eq_none (Nat.le_of_lt h)]

theorem entries_ofList (h : xs.length = rows * cols) :
    (ofList rows cols xs).entries.toList = xs := by
  refine List.ext_getElem (by simp [ofList, h]) fun k hk hk' => ?_
  simp [ofList, hk']

theorem triples_ofList (h : xs.length = rows * cols) : (ofList rows cols xs).triples =
    (positions rows cols).zipWith (fun ij x => (ij.1, ij.2, x)) xs :=
  congrArg (List.zipWith _ _) (entries_ofList h)

/-! ### Building -/

section Building

variable {m : Type → Type} [Monad m] [LawfulMonad m]

/-- Building asks for the entries in the order of their positions, and for nothing else. -/
theorem buildM_eq (rows cols : Nat) (f : Nat → Nat → m (Scalar p)) : (buildM rows cols f).run =
    (fun xs => .ok (ofList rows cols xs)) <$> (positions rows cols).mapM fun ij => f ij.1 ij.2 := by
  have hloop (before after : List (Nat × Nat)) (xs : List (Scalar p))
      (hsplit : positions rows cols = before ++ after) (hxs : before.length = xs.length) :
      (after.foldlM (fun (g : Grid p) (ij : Nat × Nat) => do
        let x ← (ExceptT.lift (f ij.1 ij.2) : ExceptT Failure m (Scalar p))
        ExceptT.mk (pure (g.put ij.1 ij.2 x))) (ofList rows cols xs)).run =
          (fun ys => .ok (ofList rows cols (xs ++ ys))) <$> after.mapM fun ij => f ij.1 ij.2 := by
    induction after generalizing before xs with
    | nil => simp
    | cons ij after ih =>
      -- the position has as many before it as entries are given
      have hget : (positions rows cols)[before.length]? = some ij := by simp [hsplit]
      obtain ⟨hij, hplace⟩ := getElem?_positions.1 hget
      have hput (x : Scalar p) := put_ofList hij (hplace.trans hxs) x
      have hrest (x : Scalar p) := ih (before ++ [ij]) (xs ++ [x]) (by simp [hsplit]) (by simp [hxs])
      simp [List.foldlM_cons, hput, hrest, ExceptT.run_bind, map_bind]
  rw [buildM, ← ofList_nil]
  exact hloop [] _ [] rfl rfl

/-- A grid whose entries are asked for one after the other comes about, whatever else the asking
does. -/
theorem buildM_run (rows cols : Nat) (f : Nat → Nat → m (Scalar p)) :
    ∃ made : m { g : Grid p // g.shape = (rows, cols) },
      (buildM rows cols f).run = (fun g => .ok g.1) <$> made := by
  refine ⟨(fun xs => ⟨ofList rows cols xs, rfl⟩) <$>
    (positions rows cols).mapM fun ij => f ij.1 ij.2, ?_⟩
  rw [buildM_eq, Functor.map_map]

/-- Where the asking does nothing else, the entries are what was asked for. -/
theorem exists_buildM {f : Nat → Nat → m (Scalar p)} {value : Nat → Nat → Scalar p}
    (hf : ∀ i j, i < rows ∧ j < cols → f i j = pure (value i j)) :
    ∃ g, (buildM rows cols f).run = pure (.ok g) ∧ g.shape = (rows, cols) ∧
      ∀ i j, i < rows ∧ j < cols → g.read? i j = some (value i j) := by
  have hasked : (positions rows cols).mapM (fun ij => f ij.1 ij.2) =
      pure ((positions rows cols).map fun ij => value ij.1 ij.2) := by
    rw [mapM_congr fun ij hij => hf ij.1 ij.2 (mem_positions.1 hij), List.mapM_pure]
  refine ⟨_, by rw [buildM_eq, hasked, map_pure], rfl, fun i j hij => ?_⟩
  rw [read?_ofList hij, List.getElem?_map, getElem?_positions.2 ⟨hij, rfl⟩]
  rfl

def triplesM (rows cols : Nat) (f : Nat → Nat → m (Scalar p)) : m (List (Nat × Nat × Scalar p)) :=
  (positions rows cols).mapM fun ij => (fun x => (ij.1, ij.2, x)) <$> f ij.1 ij.2

/-- What is asked for while a grid is built is what it lists. -/
theorem listing_buildM (rows cols : Nat) (f : Nat → Nat → m (Scalar p)) :
    (fun made => made.bind listing) <$> (buildM rows cols f).run =
      (fun ts => .ok ((rows, cols), ts)) <$> triplesM rows cols f := by
  have hlist (xs : List (Scalar p)) (hxs : xs.length = (positions rows cols).length) :
      (ofList rows cols xs).listing = .ok ((rows, cols),
        (positions rows cols).zipWith (fun ij x => (ij.1, ij.2, x)) xs) := by
    rw [listing_eq, triples_ofList (hxs.trans (length_positions rows cols))]
    rfl
  calc (fun made => made.bind listing) <$> (buildM rows cols f).run
    _ = (fun xs => (ofList rows cols xs).listing) <$>
          (positions rows cols).mapM fun ij => f ij.1 ij.2 := by
      rw [buildM_eq, Functor.map_map]
      rfl
    _ = (fun ts => .ok ((rows, cols), ts)) <$>
          List.zipWith (fun ij x => (ij.1, ij.2, x)) (positions rows cols) <$>
            (positions rows cols).mapM fun ij => f ij.1 ij.2 := by
      rw [map_mapM_congr hlist, Functor.map_map]
    _ = _ := by rw [zipWith_mapM, triplesM]

/-- The entries of a grid that is built with a counter are the numbers that it went through. -/
example :
    let count (_ _ : Nat) : StateM Nat (Scalar .single) := modifyGet fun n => (.ofBits n, n + 1)
    let (made, next) := (buildM 2 3 count).run.run 4
    made.bind listing = .ok ((2, 3), [(0, 0, .ofBits 4), (0, 1, .ofBits 5), (0, 2, .ofBits 6),
      (1, 0, .ofBits 7), (1, 1, .ofBits 8), (1, 2, .ofBits 9)]) ∧ next = 10 := ⟨rfl, rfl⟩

/-- Every position is asked about once, row by row. -/
theorem run_buildM_recorded (rows cols : Nat) (f : Nat → Nat → m (Scalar p))
    (seen : List (Nat × Nat)) :
    (buildM rows cols fun i j => recorded (fun ij => f ij.1 ij.2) (i, j)).run.run seen =
      (fun made => (made, seen ++ positions rows cols)) <$> (buildM rows cols f).run := by
  rw [buildM_eq, buildM_eq, StateT.run_map, run_mapM_recorded, Functor.map_map, Functor.map_map]

end Building

/-- Where the asking does nothing else, a grid lists what was asked for. -/
theorem listing_build (rows cols : Nat) (f : Nat → Nat → Scalar p) :
    (build rows cols f).bind listing =
      .ok ((rows, cols), (positions rows cols).map fun ij => (ij.1, ij.2, f ij.1 ij.2)) := by
  have hasked : triplesM (m := Id) rows cols f =
      (positions rows cols).map fun ij => (ij.1, ij.2, f ij.1 ij.2) := List.mapM_pure
  rw [← hasked]
  exact listing_buildM (m := Id) rows cols f

/-! ### Copies -/

/-- What a table yields is what its copy lists. Where an entry cannot be read, there is no copy. -/
theorem listing_ofTable (t : Table p) : (ofTable t).bind listing =
    (triplesM (m := Attempt) t.rows t.cols t.read).map fun ts => ((t.rows, t.cols), ts) := by
  calc (ofTable t).bind listing
    _ = (fun made => made.bind listing) <$> (buildM (m := Attempt) t.rows t.cols t.read).run >>= id := by
      unfold ofTable
      cases (buildM (m := Attempt) t.rows t.cols t.read).run <;> rfl
    _ = _ := by
      rw [listing_buildM]
      cases triplesM (m := Attempt) t.rows t.cols t.read <;> rfl

/-- A table whose entries can all be read is copied, with its shape and its entries. -/
theorem exists_ofTable {t : Table p}
    (ht : ∀ i j, i < t.rows ∧ j < t.cols → ∃ x, t.read i j = .ok x) :
    ∃ g, ofTable t = .ok g ∧ g.shape = (t.rows, t.cols) ∧
      ∀ i j, i < t.rows ∧ j < t.cols → ∃ x, t.read i j = .ok x ∧ g.read? i j = some x := by
  choose! value hvalue using ht
  obtain ⟨g, hg, hshape, hread⟩ := exists_buildM (m := Attempt) hvalue
  refine ⟨g, by rw [ofTable, hg]; rfl, hshape, fun i j hij => ?_⟩
  exact ⟨value i j, hvalue i j hij, hread i j hij⟩

theorem rebuild_eq (g : Grid p) : g.rebuild = .ok g := by
  obtain ⟨h, hh, hshape, hread⟩ := exists_ofTable (t := g.table) fun i j hij => read_ok hij
  refine hh.trans (congrArg Except.ok (eq_of_read? hshape fun i j hij => ?_))
  have hinside : i < g.rows ∧ j < g.cols := by
    obtain ⟨hrows, hcols⟩ := Prod.mk.inj hshape
    rwa [hrows, hcols] at hij
  obtain ⟨x, hx, hhx⟩ := hread i j hinside
  rw [hhx, read_eq_ok.1 hx]

end Grid
end CowArrays
