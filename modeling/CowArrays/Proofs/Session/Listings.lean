import CowArrays.Proofs.Compression.Filter
import CowArrays.Proofs.Session.Marks
import CowArrays.Proofs.Storage.Listings

/-!
Matrices are what they list. Building one and listing its entries are inverse to each other, however
its entries come about; a copy of anything that has the shape of a matrix lists what it was copied
from; and compressing the full pattern keeps, in the order of the list, the positions of the entries
that exceed the threshold.
-/

namespace CowArrays

variable {p : Precision}

theorem pairwise_positions (rows cols : Nat) :
    (positions rows cols).Pairwise Pattern.Precedes := by
  refine List.pairwise_flatMap.2 ⟨fun i _ => ?_, List.pairwise_lt_range.imp fun hlt => ?_⟩
  · exact List.pairwise_map.2 (List.pairwise_lt_range.imp fun hlt => .inr ⟨rfl, hlt⟩)
  · intro ij hij ij' hij'
    obtain ⟨j, -, rfl⟩ := List.mem_map.1 hij
    obtain ⟨j', -, rfl⟩ := List.mem_map.1 hij'
    exact .inl hlt

theorem Pattern.positions_full (rows cols : Nat) :
    (full rows cols).positions = CowArrays.positions rows cols :=
  positions_eq (CowArrays.pairwise_positions rows cols) fun _ _ =>
    CowArrays.mem_positions.trans contains_full.symm

namespace Grid

variable {g : Grid p} {t : Scalar p}

def exceedingPositions (g : Grid p) (t : Scalar p) : List (Nat × Nat) :=
  (g.triples.filter fun e => t.lt e.2.2.magnitude).map fun e => (e.1, e.2.1)

theorem exceedingPositions_sublist (g : Grid p) (t : Scalar p) :
    (g.exceedingPositions t).Sublist (positions g.rows g.cols) :=
  g.map_triples ▸ List.filter_sublist.map _

theorem mem_exceedingPositions {i j : Nat} :
    (i, j) ∈ g.exceedingPositions t ↔ g.Exceeds t i j := by
  simp only [exceedingPositions, List.mem_map, List.mem_filter, Exceeds]
  constructor
  · rintro ⟨⟨a, b, x⟩, ⟨hmem, hlt⟩, heq⟩
    obtain ⟨rfl, rfl⟩ := Prod.mk.inj heq
    exact ⟨x, mem_triples.1 hmem, hlt⟩
  · rintro ⟨x, hx, hlt⟩
    exact ⟨(i, j, x), ⟨mem_triples.2 hx, hlt⟩, rfl⟩

theorem compress_full (g : Grid p) (ht : Scalar.zero.le t = true) :
    ∃ P, compress (.full g.rows g.cols) g t = .ok P ∧ P.positions = g.exceedingPositions t := by
  obtain ⟨P, hP⟩ := compress_ok (P := .full g.rows g.cols) (g := g) ht (Pattern.size_full _ _)
    fun i j hij => (Pattern.contains_full.1 hij).2
  obtain ⟨-, -, hkept⟩ := compress_eq_ok_iff.1 hP
  refine ⟨P, hP, Pattern.positions_eq ?_ fun i j => ?_⟩
  · exact (pairwise_positions g.rows g.cols).sublist (g.exceedingPositions_sublist t)
  · rw [mem_exceedingPositions, hkept, Pattern.contains_full]
    exact (and_iff_right_of_imp fun ⟨x, hx, _⟩ => (read_of_read? hx).1).symm

end Grid

namespace Store

variable {s : Store p} {of : Name} {g : Grid p}

theorem step_entries (hg : s.reading.matrix of = .ok g) :
    s.step (.act (.matrix (.query of .entries))) = (.ok (.entries g.triples), s) := by
  have hplan : s.plan (.act (.matrix (.query of .entries))) = .ok (.tell (.entries g.triples)) := by
    show (MatrixStep.query of .entries).plan s.reading = _
    rw [MatrixStep.plan, hg, Attempt.ok_bind, MatrixQuery.answer, g.toTriples_eq]
    rfl
  exact step_of_ok hplan

theorem Sound.step_rebuild (hs : s.Sound) (hg : s.reading.matrix of = .ok g) (out : Name) :
    ∃ t, s.step (.act (.matrix (.rebuild of out))) = (.ok .done, t) ∧
      t.reading.matrix out = .ok g := by
  have hplan : s.plan (.act (.matrix (.rebuild of out))) =
      .ok ⟨.done, [.create .matrix out (.matrix g)]⟩ := by
    show (MatrixStep.rebuild of out).plan s.reading = _
    rw [MatrixStep.plan, hg, Attempt.ok_bind, g.rebuild_eq]
    rfl
  obtain ⟨t, hstep, hvalue⟩ := hs.step_create hplan
  exact ⟨t, hstep, Reading.matrix_eq_ok.2 hvalue⟩

theorem step_positions {P : Pattern} (hP : s.reading.pattern of = .ok P) :
    s.step (.act (.pattern (.query of .positions))) = (.ok (.pairs P.positions), s) := by
  have hplan : s.plan (.act (.pattern (.query of .positions))) = .ok (.tell (.pairs P.positions)) := by
    show (PatternStep.query of .positions).plan s.reading = _
    rw [PatternStep.plan, hP]
    rfl
  exact step_of_ok hplan

theorem step_compress {pattern : Name} {P Q : Pattern} {t : Scalar p}
    (hP : s.reading.pattern pattern = .ok P) (hg : s.reading.matrix of = .ok g)
    (hQ : compress P g t = .ok Q) (out : Name) :
    s.step (.act (.pattern (.compress pattern of (.sequential t) out))) =
      (.ok .done, s.setPattern out Q) := by
  have hplan : s.plan (.act (.pattern (.compress pattern of (.sequential t) out))) =
      .ok (.change [.setPattern out Q]) := by
    show (PatternStep.compress pattern of (.sequential t) out).plan s.reading = _
    rw [PatternStep.plan, hP, Attempt.ok_bind, hg, Attempt.ok_bind, Compressor.run, hQ]
    rfl
  exact step_of_ok hplan

/-- A matrix stays where a pattern is made under another name. -/
theorem Sound.matrix_setPattern (hs : s.Sound) (hg : s.reading.matrix of = .ok g) {name : Name}
    (hne : of ≠ name) (P : Pattern) : (s.setPattern name P).reading.matrix of = .ok g := by
  have hstep : s.step (.act (.pattern (.create P name))) = (.ok .done, s.setPattern name P) := rfl
  have hvalue := hs.value?_step (n := of) (t := .act (.pattern (.create P name)))
    (show of ∉ [name] by simpa using hne)
  rw [hstep] at hvalue
  exact Reading.matrix_eq_ok.2 (hvalue.trans (Reading.matrix_eq_ok.1 hg))

/-- The steps that make a full pattern, compress it against a matrix and ask for the positions that
are left. -/
def compressionSteps (rows cols : Nat) (of full kept : Name) (t : Scalar p) : List (Step p) :=
  [.act (.pattern (.create (.full rows cols) full)),
    .act (.pattern (.compress full of (.sequential t) kept)),
    .act (.pattern (.query kept .positions))]

theorem Sound.run_compression (hs : s.Sound) (hg : s.reading.matrix of = .ok g) {full : Name}
    (hne : of ≠ full) (kept : Name) {t : Scalar p} (ht : Scalar.zero.le t = true) :
    (s.run (compressionSteps g.rows g.cols of full kept t)).map Prod.fst =
      [.ok .done, .ok .done, .ok (.pairs (g.exceedingPositions t))] := by
  obtain ⟨P, hP, hpositions⟩ := g.compress_full ht
  have hcreate : s.step (.act (.pattern (.create (.full g.rows g.cols) full))) =
      (.ok .done, s.setPattern full (.full g.rows g.cols)) := rfl
  have hcompress := step_compress (pattern_setPattern s full _) (hs.matrix_setPattern hg hne _) hP kept
  have hask := step_positions (pattern_setPattern (s.setPattern full (.full g.rows g.cols)) kept P)
  simp only [compressionSteps, run, hcreate, hcompress, hask, hpositions, List.map_cons, List.map_nil]

/-- What a matrix of a store says of its entries, and what is made of them. -/
structure Lists (s : Store p) (of : Name) (g : Grid p) : Prop where
  entries : s.step (.act (.matrix (.query of .entries))) = (.ok (.entries g.triples), s)
  rebuild : ∀ out, ∃ t, s.step (.act (.matrix (.rebuild of out))) = (.ok .done, t) ∧
    t.reading.matrix out = .ok g
  compress : ∀ full kept t, of ≠ full → Scalar.zero.le t = true →
    (s.run (compressionSteps g.rows g.cols of full kept t)).map Prod.fst =
      [.ok .done, .ok .done, .ok (.pairs (g.exceedingPositions t))]

end Store

/-- Building a grid and listing its entries, in any monad, and the filter that compression is. -/
structure ListingLaws (p : Precision) : Prop where
  /-- The list of a grid has each position once, row by row, with the entry that is there. -/
  listed : ∀ g : Grid p, g.toTriples = .ok g.triples ∧ g.triples.length = g.rows * g.cols ∧
    g.triples.map (fun e => (e.1, e.2.1)) = positions g.rows g.cols ∧
    ∀ i j x, (i, j, x) ∈ g.triples ↔ g.read? i j = some x
  /-- Positions come row by row, and all that are inside. -/
  ordered : ∀ rows cols, (positions rows cols).Pairwise Pattern.Precedes ∧
    (positions rows cols).length = rows * cols ∧
    ∀ i j, (i, j) ∈ positions rows cols ↔ i < rows ∧ j < cols
  /-- A grid that is built lists what was asked for, in the order in which it was. -/
  built : ∀ (m : Type → Type) [Monad m] [LawfulMonad m] (rows cols : Nat)
    (f : Nat → Nat → m (Scalar p)),
    (fun made => made.bind Grid.listing) <$> (Grid.buildM rows cols f).run =
      (fun ts => .ok ((rows, cols), ts)) <$> Grid.triplesM rows cols f
  /-- Nothing but the values counts where they come from a function. -/
  valued : ∀ (rows cols : Nat) (f : Nat → Nat → Scalar p),
    (Grid.build rows cols f).bind Grid.listing =
      .ok ((rows, cols), (positions rows cols).map fun ij => (ij.1, ij.2, f ij.1 ij.2))
  /-- Every position is asked about once, row by row. -/
  asked : ∀ (m : Type → Type) [Monad m] [LawfulMonad m] (rows cols : Nat)
    (f : Nat → Nat → m (Scalar p)) (seen : List (Nat × Nat)),
    (Grid.buildM rows cols fun i j => recorded (fun ij => f ij.1 ij.2) (i, j)).run.run seen =
      (fun made => (made, seen ++ positions rows cols)) <$> (Grid.buildM rows cols f).run
  /-- A copy lists what its original yields, failures included. -/
  copied : ∀ t : Grid.Table p, (Grid.ofTable t).bind Grid.listing =
    (Grid.triplesM (m := Attempt) t.rows t.cols t.read).map fun ts => ((t.rows, t.cols), ts)
  /-- Where all entries can be read there is a copy, of this shape and with these entries. -/
  copies : ∀ t : Grid.Table p, (∀ i j, i < t.rows ∧ j < t.cols → ∃ x, t.read i j = .ok x) →
    ∃ g, Grid.ofTable t = .ok g ∧ g.shape = (t.rows, t.cols) ∧
      ∀ i j, i < t.rows ∧ j < t.cols → ∃ x, t.read i j = .ok x ∧ g.read? i j = some x
  rebuilt : ∀ g : Grid p, g.rebuild = .ok g
  full : ∀ rows cols, (Pattern.full rows cols).positions = positions rows cols
  /-- Of the full pattern, compression keeps the positions of the entries above the threshold. -/
  compressed : ∀ (g : Grid p) (t : Scalar p), Scalar.zero.le t = true →
    ∃ P, compress (.full g.rows g.cols) g t = .ok P ∧
      P.positions = (g.triples.filter fun e => t.lt e.2.2.magnitude).map fun e => (e.1, e.2.1)
  /-- Steps on a matrix of a store come to the same. -/
  stored : ∀ (s : Store p) (of : Name) (g : Grid p), s.Reachable → s.reading.matrix of = .ok g →
    s.Lists of g

theorem listingLaws (p : Precision) : ListingLaws p where
  listed g := ⟨g.toTriples_eq, g.length_triples, g.map_triples, fun _ _ _ => Grid.mem_triples⟩
  ordered rows cols :=
    ⟨pairwise_positions rows cols, length_positions rows cols, fun _ _ => mem_positions⟩
  built _ _ _ := Grid.listing_buildM
  valued := Grid.listing_build
  asked _ _ _ := Grid.run_buildM_recorded
  copied := Grid.listing_ofTable
  copies _ := Grid.exists_ofTable
  rebuilt := Grid.rebuild_eq
  full := Pattern.positions_full
  compressed g _ ht := g.compress_full ht
  stored _ _ _ hs hg := {
    entries := Store.step_entries hg
    rebuild := hs.sound.step_rebuild hg
    compress := fun _ kept _ hne ht => hs.sound.run_compression hg hne kept ht }

end CowArrays
