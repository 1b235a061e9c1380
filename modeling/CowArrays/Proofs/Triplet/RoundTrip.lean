import CowArrays.Proofs.Triplet.Delivery
import CowArrays.Proofs.Triplet.Lines
import CowArrays.Proofs.Triplet.Loading

/-!
Reading undoes writing. The entries of a matrix at the positions of a pattern are written as triplet
lines, which read back as one triplet for each position, so that a matrix of the same shape holds
them afterwards, rounded by the text, and zeros everywhere else.
-/

namespace CowArrays

variable {p q : Precision}

/-- Whether all positions of a pattern are inside a grid and can be written as indices. -/
def Pattern.Fits (x : Pattern) (g : Grid p) : Prop :=
  ∀ i j, x.contains i j = true →
    (i < g.rows ∧ j < g.cols) ∧ i < indexLimit ∧ j < indexLimit

namespace Triplet

variable {g : Grid p} {x : Pattern}

def entriesAt (g : Grid p) (x : Pattern) : List (Nat × Nat × Scalar p) :=
  x.positions.map fun (i, j) => (i, j, (g.read? i j).getD .zero)

theorem mem_entriesAt {e : Nat × Nat × Scalar p} : e ∈ entriesAt g x ↔
    x.contains e.1 e.2.1 = true ∧ (g.read? e.1 e.2.1).getD .zero = e.2.2 := by
  obtain ⟨i, j, v⟩ := e
  rw [entriesAt, List.mem_map]
  constructor
  · rintro ⟨⟨i', j'⟩, hmem, heq⟩
    obtain ⟨rfl, hrest⟩ := Prod.mk.inj heq
    obtain ⟨rfl, hv⟩ := Prod.mk.inj hrest
    exact ⟨Pattern.mem_positions.1 hmem, hv⟩
  · rintro ⟨hmem, hv⟩
    exact ⟨(i, j), Pattern.mem_positions.2 hmem, congrArg (fun v => (i, j, v)) hv⟩

/-! ### Writing -/

theorem checkPositions_eq_ok {positions : List (Nat × Nat)} :
    checkPositions g positions = .ok () ↔ ∀ ij ∈ positions, ij.1 < g.rows ∧ ij.2 < g.cols := by
  rw [checkPositions, Attempt.forM_eq_ok]
  exact forall₂_congr fun ij _ => check_eq_ok

theorem linesOf_eq (h : ∀ i j, x.contains i j = true → i < g.rows ∧ j < g.cols) :
    linesOf g x = .ok ((entriesAt g x).map fun e => line e.1 e.2.1 e.2.2) := by
  have hinside : ∀ ij ∈ x.positions, ij.1 < g.rows ∧ ij.2 < g.cols :=
    fun ij hij => h ij.1 ij.2 (Pattern.mem_positions.1 hij)
  rw [linesOf, checkPositions_eq_ok.2 hinside, Attempt.ok_bind, entriesAt, List.map_map]
  refine Attempt.mapM_eq_map fun ij hij => ?_
  obtain ⟨v, hv⟩ := Grid.exists_read? (hinside ij hij)
  show (g.read ij.1 ij.2 >>= fun v => pure (line ij.1 ij.2 v)) = _
  rw [(Grid.read_of_read? hv).2]
  simp [hv]

example : (linesOf (⟨1, 3, #[.nan true, .infinite true, .ofBits 1], rfl⟩ : Grid .double)
    (.ofLists [[2, 1, 0]])).toOption =
      some ["0,0,NaN\n", "0,1,-inf\n", "0,2,4.940656458412e-324\n"] := by
  decide +kernel

def textOf (g : Grid p) (x : Pattern) : String :=
  .join ((entriesAt g x).map fun e => line e.1 e.2.1 e.2.2)

theorem writeWithin_none (h : ∀ i j, x.contains i j = true → i < g.rows ∧ j < g.cols) :
    writeWithin none g x = .ok (textOf g x).toUTF8.toList := by
  have hwrite : write Sink.unbounded g x =
      .ok (Sink.unbounded.deliver ((entriesAt g x).map fun e => line e.1 e.2.1 e.2.2)) := by
    rw [write, linesOf_eq h]
    rfl
  rw [writeWithin, hwrite, Attempt.ok_bind, Sink.reliable_unbounded.deliver, textOf, Text.toUTF8_join]

/-! ### Reading -/

theorem readAll_textOf (h : x.Fits g) :
    readAll (textOf g x).toUTF8.toList = .ok ((entriesAt g x).map again) := by
  rw [textOf, Text.toUTF8_join, List.map_map]
  exact readAll_lines fun e he => (h e.1 e.2.1 (mem_entriesAt.1 he).1).2

theorem inside_of_mem_again (h : x.Fits g) {t : Triplet} (ht : t ∈ (entriesAt g x).map again) :
    t.row < g.rows ∧ t.col < g.cols := by
  obtain ⟨e, he, rfl⟩ := List.mem_map.1 ht
  exact (h e.1 e.2.1 (mem_entriesAt.1 he).1).1

theorem readInside_textOf (h : x.Fits g) :
    readInside g.rows g.cols (textOf g x).toUTF8.toList = .ok ((entriesAt g x).map again) :=
  readInside_eq_ok.2 ⟨⟨rfl, readAll_textOf h⟩, fun _ => inside_of_mem_again h⟩

/-- The positions are read back as they are. -/
theorem exists_at_again {i j : Nat} :
    (∃ t ∈ (entriesAt g x).map again, t.At i j) ↔ x.contains i j = true := by
  constructor
  · rintro ⟨t, ht, rfl, rfl⟩
    obtain ⟨e, he, rfl⟩ := List.mem_map.1 ht
    exact (mem_entriesAt.1 he).1
  · intro hmem
    have he : (i, j, (g.read? i j).getD .zero) ∈ entriesAt g x := mem_entriesAt.2 ⟨hmem, rfl⟩
    exact ⟨_, List.mem_map_of_mem he, rfl, rfl⟩

theorem apart_again : ((entriesAt g x).map again).Pairwise fun t u => ¬u.At t.row t.col := by
  rw [entriesAt, List.map_map, List.pairwise_map]
  refine x.nodup_positions.imp fun hne hat => ?_
  exact hne (Prod.ext hat.1.symm hat.2.symm)

/-- What a grid and a pattern have, compared with those that were written before. -/
structure Restores (g : Grid p) (x : Pattern) (g' : Grid q) (y : Pattern) : Prop where
  shape : g'.shape = g.shape
  size : y.size = g.rows
  positions : ∀ i j, y.contains i j = x.contains i j
  /-- The pattern is the one that was written if it has as many rows as the grid. -/
  pattern : x.size = g.rows → y = x
  /-- An entry is what the text of the one that was written says, added to zero. -/
  entry : ∀ i j v, x.contains i j = true → g.read? i j = some v →
    ∃ w, Scalar.ofText? v.toDouble.scientific = some w ∧ g'.read? i j = some (.zero + w)
  other : ∀ i j, i < g.rows → j < g.cols → x.contains i j = false → g'.read? i j = some .zero

/-- A grid of the same shape is filled with what was written, whatever it held. -/
theorem fill_again {w : Grid q} (hshape : w.shape = g.shape) (h : x.Fits g) :
    ∃ g' y, fill w ((entriesAt g x).map again) = .ok (g', y) ∧ Restores g x g' y := by
  have ⟨hrows, hcols⟩ : w.rows = g.rows ∧ w.cols = g.cols := Prod.mk.inj hshape
  have hinside : ∀ t ∈ (entriesAt g x).map again, t.row < w.rows ∧ t.col < w.cols := by
    rw [hrows, hcols]
    exact fun t => inside_of_mem_again h
  obtain ⟨g', y, hfill, hshape', hsize, hcontains, hentry⟩ := fill_of_lt hinside
  have hpositions (i j : Nat) : y.contains i j = x.contains i j :=
    Bool.eq_iff_iff.2 ((hcontains i j).trans exists_at_again)
  refine ⟨g', y, hfill, hshape'.trans hshape, hsize.trans hrows, hpositions, fun hx => ?_,
    fun i j v hmem hv => ?_, fun i j hi hj hno => ?_⟩
  · exact Pattern.eq_of_contains ((hsize.trans hrows).trans hx.symm) fun i j => by rw [hpositions]
  · -- one triplet is at this position, and its value is what the text of the entry says
    obtain ⟨l, hl⟩ := v.toDouble.read_scientific
    have he : (i, j, v) ∈ entriesAt g x := mem_entriesAt.2 ⟨hmem, by rw [hv]; rfl⟩
    have ht : again (i, j, v) ∈ (entriesAt g x).map again := List.mem_map_of_mem he
    have hsum := sumAt_of_apart (p := q) apart_again ht .zero
    refine ⟨.ofDouble (.ofLiteral l), by rw [Scalar.ofText?, hl]; rfl, ?_⟩
    rw [again, reread_eq hl] at hsum
    rw [hentry i j (hinside _ ht).1 (hinside _ ht).2, hsum]
  · have habsent : ∀ t ∈ (entriesAt g x).map again, ¬t.At i j := fun t ht hat => by
      have hyes := exists_at_again.1 ⟨t, ht, hat⟩
      rw [hno] at hyes
      cases hyes
    rw [hentry i j (hrows ▸ hi) (hcols ▸ hj), sumAt_of_absent habsent]

end Triplet

/-! ### Sessions -/

namespace Store

theorem step_write {s : Store p} {source pattern : Name} {g : Grid p} {x : Pattern}
    (hg : s.reading.matrix source = .ok g) (hx : s.reading.pattern pattern = .ok x)
    (h : ∀ i j, x.contains i j = true → i < g.rows ∧ j < g.cols) :
    s.step (.act (.matrix (.write source pattern none))) = (.ok (.text (Triplet.textOf g x)), s) := by
  have hplan : s.plan (.act (.matrix (.write source pattern none))) =
      .ok (.tell (.text (Triplet.textOf g x))) := by
    show (MatrixStep.write source pattern none).plan s.reading = _
    simp only [MatrixStep.plan, hg, hx, Triplet.writeWithin_none h, Attempt.ok_bind, Answer.written,
      Text.fromUTF8?_toUTF8]
    rfl
  exact step_of_ok hplan

/-- Reading undoes writing. What is written of a matrix at the positions of a pattern is a text that
loads into every matrix of the same shape, whatever it holds and whatever shares it, and restores
the entries at the positions of the pattern, up to the rounding of their text, and the pattern. -/
theorem load_undoes_write {s : Store p} {source pattern : Name} {g : Grid p} {x : Pattern}
    (hg : s.reading.matrix source = .ok g) (hx : s.reading.pattern pattern = .ok x)
    (fits : x.Fits g) :
    ∃ text : String, s.step (.act (.matrix (.write source pattern none))) = (.ok (.text text), s) ∧
      ∀ (q : Precision) (u : Store q), u.Reachable → ∀ target w, u.reading.matrix target = .ok w →
        w.shape = g.shape → ∀ out, out ≠ target →
          ∃ t g' y, u.step (.act (.matrix (.load target text.toUTF8.toList out))) = (.ok .done, t) ∧
            t.reading.matrix target = .ok g' ∧ t.reading.pattern out = .ok y ∧
              Triplet.Restores g x g' y := by
  refine ⟨Triplet.textOf g x, step_write hg hx fun i j hmem => (fits i j hmem).1, ?_⟩
  intro q u hu target w hw hshape out hout
  obtain ⟨g', y, hfill, hrestores⟩ := Triplet.fill_again hshape fits
  have ⟨hrows, hcols⟩ : w.rows = g.rows ∧ w.cols = g.cols := Prod.mk.inj hshape
  have hread : Triplet.readInside w.rows w.cols (Triplet.textOf g x).toUTF8.toList =
      .ok ((Triplet.entriesAt g x).map Triplet.again) := by
    rw [hrows, hcols]
    exact Triplet.readInside_textOf fits
  obtain ⟨t, hstep, hmatrix, hpattern⟩ := hu.sound.step_load hw hread hfill hout
  exact ⟨t, g', y, hstep, hmatrix, hpattern, hrestores⟩

/-- A NaN, an infinity, the least positive scalar and one. -/
def rareGrid : Grid .double := ⟨2, 2, #[.nan true, .infinite true, .ofBits 1, .unit], rfl⟩

def rarePattern : Pattern := .ofLists [[0, 1], [0]]

def rareStore : Store .double :=
  ((({} : Store .double).step (.act (.matrix (.create rareGrid "m")))).2.step
    (.act (.pattern (.create rarePattern "x")))).2.step
      (.act (.sharing (.clone .matrix "m" "n"))) |>.2

theorem rarePattern_fits : rarePattern.Fits rareGrid := by
  intro i j hmem
  have hposition : (i, j) ∈ [(0, 0), (0, 1), (1, 0)] := Pattern.mem_positions.2 hmem
  have hall : ∀ ij ∈ [(0, 0), (0, 1), (1, 0)],
      (ij.1 < 2 ∧ ij.2 < 2) ∧ ij.1 < indexLimit ∧ ij.2 < indexLimit := by decide
  exact hall (i, j) hposition

theorem load_undoes_write_rareGrid :
    rareStore.Reachable ∧ rareStore.reading.matrix "m" = .ok rareGrid ∧
      rareStore.reading.pattern "x" = .ok rarePattern ∧ rarePattern.Fits rareGrid ∧
        ∃ text t g' y, rareStore.step (.act (.matrix (.write "m" "x" none))) =
            (.ok (.text text), rareStore) ∧
          rareStore.step (.act (.matrix (.load "n" text.toUTF8.toList "y"))) = (.ok .done, t) ∧
            t.reading.matrix "n" = .ok g' ∧ t.reading.pattern "y" = .ok y ∧
              Triplet.Restores rareGrid rarePattern g' y := by
  have hreachable : rareStore.Reachable := .step _ (.step _ (.step _ .start))
  have hmatrix : rareStore.reading.matrix "m" = .ok rareGrid := rfl
  have hpattern : rareStore.reading.pattern "x" = .ok rarePattern := rfl
  refine ⟨hreachable, hmatrix, hpattern, rarePattern_fits, ?_⟩
  obtain ⟨text, hwrite, hload⟩ := load_undoes_write hmatrix hpattern rarePattern_fits
  obtain ⟨t, g', y, hstep, hmatrix, hpattern, hrestores⟩ :=
    hload .double rareStore hreachable "n" rareGrid rfl rfl "y" (by decide)
  exact ⟨text, t, g', y, hwrite, hstep, hmatrix, hpattern, hrestores⟩

end Store
end CowArrays
