import CowArrays.Proofs.Storage.Grids
import CowArrays.Proofs.Storage.Patterns
import CowArrays.Triplet.Load

/-!
What a grid and a pattern hold once triplets were put into them. Triplets that passed the check of
their positions can all be put into the grid that they were checked against: the pattern then marks
these positions and no other, and each entry is the sum of what was there and of the values at its
position, in the order of the text.
-/

namespace CowArrays.Triplet

variable {p : Precision}

/-! ### Feeds and positions inside -/

theorem check_eq_ok {rows cols i j : Nat} :
    (checkRow i rows >>= fun _ => checkCol j cols) = .ok () ↔ i < rows ∧ j < cols := by
  rw [Attempt.seq_eq_ok, checkRow, checkCol, checkIndex_eq_ok, checkIndex_eq_ok]

theorem checkInside_eq_ok {rows cols : Nat} {ts : List Triplet} :
    checkInside rows cols ts = .ok () ↔ ∀ t ∈ ts, t.row < rows ∧ t.col < cols := by
  rw [checkInside, Attempt.forM_eq_ok]
  exact forall₂_congr fun t _ => check_eq_ok

theorem readFeed_of_whole {feed : Feed} (h : feed.fault = none) :
    readFeed feed = readAll feed.octets := by
  rw [readFeed, Feed.text, h]
  exact bind_pure _

theorem readFeed_of_readAll {text : Octets} {ts : List Triplet} (h : readAll text = .ok ts) :
    readFeed text = .ok ts :=
  (readFeed_of_whole rfl).trans h

theorem readFeed_of_unread {feed : Feed} {failure : Failure}
    (h : readAll feed.text = .error failure) : readFeed feed = .error failure := by
  rw [readFeed, h, Attempt.error_bind]

/-- A fault is reported behind lines that are read. -/
theorem readFeed_of_fault {feed : Feed} {ts : List Triplet} {reason : String}
    (h : readAll feed.text = .ok ts) (hfault : feed.fault = some reason) :
    readFeed feed = .error (.stream (.rejected reason)) := by
  rw [readFeed, h, hfault]
  rfl

theorem readFeed_eq_ok {feed : Feed} {ts : List Triplet} :
    readFeed feed = .ok ts ↔ feed.fault = none ∧ readAll feed.octets = .ok ts := by
  constructor
  · intro h
    cases hfault : feed.fault with
    | none => exact ⟨rfl, readFeed_of_whole hfault ▸ h⟩
    | some reason =>
      cases hread : readAll feed.text with
      | error failure => cases (readFeed_of_unread hread).symm.trans h
      | ok us => cases (readFeed_of_fault hread hfault).symm.trans h
  · rintro ⟨hfault, hread⟩
    rw [readFeed_of_whole hfault, hread]

theorem readInside_eq_ok {rows cols : Nat} {feed : Feed} {ts : List Triplet} :
    readInside rows cols feed = .ok ts ↔
      (feed.fault = none ∧ readAll feed.octets = .ok ts) ∧
        ∀ t ∈ ts, t.row < rows ∧ t.col < cols := by
  rw [readInside, Attempt.bind_eq_ok]
  constructor
  · rintro ⟨ts', hread, hrest⟩
    obtain ⟨hinside, heq⟩ := Attempt.seq_eq_ok.1 hrest
    obtain rfl : ts' = ts := Except.ok.inj heq
    exact ⟨readFeed_eq_ok.1 hread, checkInside_eq_ok.1 hinside⟩
  · rintro ⟨hread, hinside⟩
    exact ⟨ts, readFeed_eq_ok.2 hread, Attempt.seq_eq_ok.2 ⟨checkInside_eq_ok.2 hinside, rfl⟩⟩

/-! ### Sums -/

def At (t : Triplet) (i j : Nat) : Prop := t.row = i ∧ t.col = j

instance (t : Triplet) (i j : Nat) : Decidable (t.At i j) := inferInstanceAs (Decidable (_ ∧ _))

/-- What the triplets at a position make of the entry there, one after the other. -/
def sumAt (ts : List Triplet) (i j : Nat) (x : Scalar p) : Scalar p :=
  ts.foldl (fun x t => if t.At i j then x + .ofDouble t.value else x) x

theorem sumAt_cons (t : Triplet) (ts : List Triplet) (i j : Nat) (x : Scalar p) :
    sumAt (t :: ts) i j x = sumAt ts i j (if t.At i j then x + .ofDouble t.value else x) := rfl

theorem sumAt_of_absent {ts : List Triplet} {i j : Nat} (h : ∀ t ∈ ts, ¬t.At i j) (x : Scalar p) :
    sumAt ts i j x = x := by
  induction ts generalizing x with
  | nil => rfl
  | cons t ts ih =>
    obtain ⟨ht, hts⟩ := List.forall_mem_cons.1 h
    rw [sumAt_cons, if_neg ht, ih hts]

/-- Where no two triplets share a position, the sum has one term. -/
theorem sumAt_of_apart {ts : List Triplet} (h : ts.Pairwise fun t u => ¬u.At t.row t.col)
    {t : Triplet} (ht : t ∈ ts) (x : Scalar p) :
    sumAt ts t.row t.col x = x + .ofDouble t.value := by
  induction ts generalizing x with
  | nil => cases ht
  | cons u ts ih =>
    obtain ⟨hapart, hrest⟩ := List.pairwise_cons.1 h
    rw [sumAt_cons]
    rcases List.mem_cons.1 ht with rfl | hmem
    · -- this is the term, and nothing behind it is at its position
      rw [if_pos ⟨rfl, rfl⟩, sumAt_of_absent hapart]
    · have hne : ¬u.At t.row t.col := fun heq => hapart t hmem ⟨heq.1.symm, heq.2.symm⟩
      rw [if_neg hne, ih hrest hmem]

/-! ### Filling -/

/-- What triplets make of a grid and a pattern. -/
structure Fills (ts : List Triplet) (g : Grid p) (x : Pattern) (g' : Grid p) (y : Pattern) :
    Prop where
  shape : g'.shape = g.shape
  size : y.size = x.size
  contains : ∀ i j, y.contains i j = true ↔ (∃ t ∈ ts, t.At i j) ∨ x.contains i j = true
  entry : ∀ i j, g'.read? i j = (g.read? i j).map (sumAt ts i j)

theorem accumulate_of_lt {g : Grid p} {t : Triplet} (ht : t.row < g.rows ∧ t.col < g.cols)
    {x : Pattern} (hx : x.size = g.rows) :
    ∃ g' y, accumulate g x t = .ok (g', y) ∧ Fills [t] g x g' y := by
  obtain ⟨g', hg', hshape, hread⟩ := Grid.add_of_lt ht (.ofDouble t.value)
  obtain ⟨y, hy, hsize, hcontains⟩ := Pattern.insert_of_lt (hx ▸ ht.1) t.col
  have hat {i j : Nat} : i = t.row ∧ j = t.col ↔ t.At i j := and_congr eq_comm eq_comm
  refine ⟨g', y, by simp [accumulate, hg', hy], hshape, hsize, fun i j => ?_, fun i j => ?_⟩
  · simp only [hcontains, hat, List.mem_singleton, exists_eq_left]
  · rw [hread]
    by_cases hij : i = t.row ∧ j = t.col
    · obtain ⟨rfl, rfl⟩ := hij
      rw [if_pos ⟨rfl, rfl⟩]
      exact congrArg (Option.map · _) (funext fun x => (if_pos ⟨rfl, rfl⟩).symm)
    · rw [if_neg hij]
      have hid : sumAt (p := p) [t] i j = id := funext fun x => if_neg fun h => hij (hat.2 h)
      rw [hid, Option.map_id, id]

theorem Fills.cons {t : Triplet} {ts : List Triplet} {g g₁ g' : Grid p} {x x₁ y : Pattern}
    (hfirst : Fills [t] g x g₁ x₁) (hrest : Fills ts g₁ x₁ g' y) : Fills (t :: ts) g x g' y := by
  refine ⟨hrest.shape.trans hfirst.shape, hrest.size.trans hfirst.size, fun i j => ?_,
    fun i j => ?_⟩
  · rw [hrest.contains, hfirst.contains]
    simp only [List.mem_cons, List.not_mem_nil, or_false, exists_eq_or_imp, exists_eq_left]
    rw [or_left_comm, or_assoc]
  · rw [hrest.entry, hfirst.entry, Option.map_map]
    rfl

theorem accumulateAll_of_lt {ts : List Triplet} {g : Grid p} {x : Pattern}
    (hts : ∀ t ∈ ts, t.row < g.rows ∧ t.col < g.cols) (hx : x.size = g.rows) :
    ∃ g' y, ts.foldlM (fun (u : Grid p × Pattern) t => accumulate u.1 u.2 t) (g, x) = .ok (g', y) ∧
      Fills ts g x g' y := by
  induction ts generalizing g x with
  | nil =>
    have hnone : ∀ i j, x.contains i j = true ↔
        (∃ t ∈ ([] : List Triplet), t.At i j) ∨ x.contains i j = true := by simp
    exact ⟨g, x, rfl, rfl, rfl, hnone, fun i j => Option.map_id'.symm⟩
  | cons t ts ih =>
    obtain ⟨ht, hrest⟩ := List.forall_mem_cons.1 hts
    obtain ⟨g₁, x₁, hacc, hfirst⟩ := accumulate_of_lt ht hx
    have ⟨hrows, hcols⟩ := Grid.shape_eq_iff.1 hfirst.shape
    obtain ⟨g', y, hloop, hfills⟩ :=
      ih (g := g₁) (by rwa [hrows, hcols]) (by rw [hfirst.size, hx, hrows])
    refine ⟨g', y, ?_, hfirst.cons hfills⟩
    rw [List.foldlM_cons, hacc]
    exact hloop

/-- What filling makes of a grid does not depend on the entries that it had before. -/
theorem fill_of_lt {g : Grid p} {ts : List Triplet}
    (hts : ∀ t ∈ ts, t.row < g.rows ∧ t.col < g.cols) :
    ∃ g' y, fill g ts = .ok (g', y) ∧ g'.shape = g.shape ∧ y.size = g.rows ∧
      (∀ i j, y.contains i j = true ↔ ∃ t ∈ ts, t.At i j) ∧
      ∀ i j, i < g.rows → j < g.cols → g'.read? i j = some (sumAt ts i j .zero) := by
  -- clearing leaves zeros whatever there was, so every sum starts from zero
  obtain ⟨cleared, hcleared, hshape, hzero⟩ := g.exists_clear
  have ⟨hrows, hcols⟩ := Grid.shape_eq_iff.1 hshape
  obtain ⟨g', y, hloop, hfills⟩ := accumulateAll_of_lt (g := cleared) (by rwa [hrows, hcols])
    ((Pattern.size_empty g.rows).trans hrows.symm)
  refine ⟨g', y, ?_, hfills.shape.trans hshape, hfills.size.trans (Pattern.size_empty g.rows),
    fun i j => ?_, fun i j hi hj => ?_⟩
  · rw [fill, hcleared]
    exact hloop
  · simp [hfills.contains]
  · obtain ⟨x, hx⟩ := Grid.exists_read? ⟨hi, hj⟩
    rw [hfills.entry, hzero, hx]
    rfl

end CowArrays.Triplet
