import CowArrays.Proofs.Compression.Filter
import CowArrays.Proofs.Text.Doubles
import CowArrays.Proofs.Triplet.Singles

/-!
Matrices of 64-bit scalars in text. What is loaded is near to what was written, and it is zero at the
same positions, so compressing against it keeps the same ones. What is loaded of a text without
subnormal numbers and negative zeros is written as that text again.
-/

namespace CowArrays

variable {g : Grid .double} {x : Pattern}

namespace Triplet

/-! ### Entries -/

/-- What is left of the entries at the positions of a pattern once they were written and loaded. -/
theorem Holds.exists_isLeft {g' : Grid .double} {y : Pattern}
    (h : Holds ((entriesAt g x).map again) g.rows g.cols g' y) (fits : x.Fits g) {i j : Nat}
    {v : Scalar .double} (hmem : x.contains i j = true) (hv : g.read? i j = some v) :
    ∃ w, g'.read? i j = some w ∧ v.IsLeft w := by
  obtain ⟨w, hw, hleft⟩ := v.exists_isLeft
  have ⟨hi, hj⟩ := (fits i j hmem).1
  exact ⟨_, h.entry_again hi hj hmem hv hw, hleft⟩

/-- They are not zero at the positions where they were not. -/
theorem Holds.compress_eq {g' : Grid .double} {y : Pattern}
    (h : Holds ((entriesAt g x).map again) g.rows g.cols g' y) (fits : x.Fits g) :
    compress x g' .zero = compress x g .zero := by
  refine compress_congr h.shape fun i j hmem => ?_
  obtain ⟨v, hv⟩ := Grid.exists_read? (fits i j hmem).1
  obtain ⟨w, hw, hleft⟩ := h.exists_isLeft fits hmem hv
  simp only [Grid.Exceeds, hv, hw, Option.some.injEq, exists_eq_left',
    Scalar.zero_lt_magnitude_iff, hleft.nan, hleft.zero]

/-- Settled entries are written as before. -/
theorem Holds.textOf_eq {g' : Grid .double} {y : Pattern}
    (h : Holds ((entriesAt g x).map again) g.rows g.cols g' y) (fits : x.Fits g)
    (hsize : x.size = g.rows)
    (settled : ∀ i j v, x.contains i j = true → g.read? i j = some v → v.IsSettled) :
    textOf g' y = textOf g x := by
  have hpattern : y = x := Pattern.eq_of_contains (h.size.trans hsize.symm) fun i j =>
    (h.contains i j).trans exists_at_again
  rw [hpattern, textOf, textOf, entriesAt, entriesAt, List.map_map, List.map_map]
  refine congrArg String.join (List.map_congr_left fun ij hij => ?_)
  obtain ⟨i, j⟩ := ij
  have hmem := Pattern.mem_positions.1 hij
  obtain ⟨hi, hj⟩ := (fits i j hmem).1
  obtain ⟨v, hv⟩ := Grid.exists_read? ⟨hi, hj⟩
  obtain ⟨w, hw, htext⟩ := (settled i j v hmem hv).exists_scientific_eq
  have hentry := h.entry_again hi hj hmem hv hw
  simp only [Function.comp, hv, hentry, Option.getD_some, line, Scalar.toDouble, htext]

end Triplet

/-! ### Sessions -/

namespace Store

/-- A finite 64-bit scalar and what is read of its text are apart by one part in a million millions
at most, so it is read as a finite one, of its sign, and as a zero only if it is one. A matrix of such
scalars that is written at a pattern and loaded into any matrix of its shape is as near to what it
was there, and compressing the pattern against it keeps the same positions. -/
theorem doubles_survive_text :
    (∀ v : Scalar .double, v.isFinite = true →
      ∃ w, Scalar.ofText? v.scientific = some w ∧ w.negative = v.negative ∧ v.IsNear w) ∧
    ∀ (s : Store .double) source pattern g x, s.reading.matrix source = .ok g →
      s.reading.pattern pattern = .ok x → x.Fits g →
      ∃ text : String,
        s.step (.act (.matrix (.write source pattern none))) = (.ok (.text text), s) ∧
        ∀ u : Store .double, u.Reachable → ∀ target w, u.reading.matrix target = .ok w →
          w.shape = g.shape → ∀ out, out ≠ target →
          ∃ t g' y, u.step (.load target text.toUTF8.toList out) = (.ok .done, t) ∧
            t.reading.matrix target = .ok g' ∧ t.reading.pattern out = .ok y ∧
            (∀ i j v, x.contains i j = true → g.read? i j = some v → v.isFinite = true →
              ∃ w, g'.read? i j = some w ∧ v.IsNear w) ∧
            compress x g' .zero = compress x g .zero := by
  refine ⟨fun v => Scalar.exists_ofText?_isNear, fun s source pattern g x hg hx fits => ?_⟩
  refine ⟨Triplet.textOf g x, step_write hg hx fun i j hmem => (fits i j hmem).1, ?_⟩
  intro u hu target w hw hshape out hout
  obtain ⟨t, g', y, hstep, hmatrix, hpattern, hholds⟩ :=
    hu.sound.step_load_textOf fits hw hshape hout
  refine ⟨t, g', y, hstep, hmatrix, hpattern, fun i j v hmem hv hfinite => ?_,
    hholds.compress_eq fits⟩
  obtain ⟨w, hw, hleft⟩ := hholds.exists_isLeft fits hmem hv
  exact ⟨w, hw, hleft.near hfinite⟩

/-- A matrix of two rows and two columns and the pattern of all its positions, and a matrix of ones
to load into. -/
def besideOnes (g : Grid .double) : Store .double :=
  ((({} : Store .double).step (.act (.matrix (.create g "m")))).2.step
    (.act (.pattern (.create everywhere "x")))).2.step
      (.act (.matrix (.filled 2 2 .unit "n"))) |>.2

def farthest : Grid .double :=
  ⟨2, 2, #[.signedZero true, .infinite false, .ofBits 1, .ofBits 0x7FEFFFFFFFFFFFFF], rfl⟩

theorem doubles_survive_text_farthest :
    (besideOnes farthest).Reachable ∧ (besideOnes farthest).reading.matrix "m" = .ok farthest ∧
      (besideOnes farthest).reading.pattern "x" = .ok everywhere ∧ everywhere.Fits farthest ∧
      (∃ w, Scalar.ofText? (Scalar.ofBits 1 : Scalar .double).scientific = some w ∧
        w.negative = (Scalar.ofBits 1 : Scalar .double).negative ∧
          (Scalar.ofBits 1 : Scalar .double).IsNear w) ∧
      ∃ text t g' y, (besideOnes farthest).step (.act (.matrix (.write "m" "x" none))) =
          (.ok (.text text), besideOnes farthest) ∧
        (besideOnes farthest).step (.load "n" text.toUTF8.toList "y") = (.ok .done, t) ∧
        t.reading.matrix "n" = .ok g' ∧ t.reading.pattern "y" = .ok y ∧
        (∃ w, g'.read? 1 1 = some w ∧
          (Scalar.ofBits 0x7FEFFFFFFFFFFFFF : Scalar .double).IsNear w) ∧
        compress everywhere g' .zero = compress everywhere farthest .zero := by
  have hreachable : (besideOnes farthest).Reachable := .step _ (.step _ (.step _ .start))
  have fits : everywhere.Fits farthest := everywhere_fits_of_shape rfl
  obtain ⟨hscalars, hgrids⟩ := doubles_survive_text
  obtain ⟨text, hwrite, hload⟩ := hgrids (besideOnes farthest) "m" "x" farthest everywhere rfl rfl
    fits
  obtain ⟨t, g', y, hstep, hmatrix, hpattern, hnear, hcompress⟩ :=
    hload (besideOnes farthest) hreachable "n" (.filled 2 2 .unit) rfl rfl "y" (by decide)
  exact ⟨hreachable, rfl, rfl, fits, hscalars _ (by decide), text, t, g', y, hwrite, hstep, hmatrix,
    hpattern, hnear 1 1 _ rfl rfl (by decide), hcompress⟩

/-- A text is written again by what was loaded of it, if the entries that it was written of are
positive zeros, infinities, NaNs and normal numbers. -/
theorem write_again {s : Store .double} {source pattern : Name} {g : Grid .double} {x : Pattern}
    (hg : s.reading.matrix source = .ok g) (hx : s.reading.pattern pattern = .ok x)
    (fits : x.Fits g) (hsize : x.size = g.rows)
    (settled : ∀ i j v, x.contains i j = true → g.read? i j = some v → v.IsSettled) :
    ∃ text : String,
      s.step (.act (.matrix (.write source pattern none))) = (.ok (.text text), s) ∧
      ∀ u : Store .double, u.Reachable → ∀ target w, u.reading.matrix target = .ok w →
        w.shape = g.shape → ∀ out, out ≠ target →
        ∃ t, u.step (.load target text.toUTF8.toList out) = (.ok .done, t) ∧
          t.step (.act (.matrix (.write target out none))) = (.ok (.text text), t) := by
  refine ⟨Triplet.textOf g x, step_write hg hx fun i j hmem => (fits i j hmem).1, ?_⟩
  intro u hu target w hw hshape out hout
  obtain ⟨t, g', y, hstep, hmatrix, hpattern, hholds⟩ :=
    hu.sound.step_load_textOf fits hw hshape hout
  have ⟨hrows, hcols⟩ := Grid.shape_eq_iff.1 hholds.shape
  have inside : ∀ i j, y.contains i j = true → i < g'.rows ∧ j < g'.cols := by
    intro i j hmem
    rw [hrows, hcols]
    exact (fits i j (Triplet.exists_at_again.1 ((hholds.contains i j).1 hmem))).1
  have hwrite := step_write hmatrix hpattern inside
  rw [hholds.textOf_eq fits hsize settled] at hwrite
  exact ⟨t, hstep, hwrite⟩

/-- An infinity, a zero, a NaN and the least normal scalar, whose digits are of a smaller one. -/
def settledOnes : Grid .double :=
  ⟨2, 2, #[.infinite true, .zero, .nan true, .ofBits 0x0010000000000000], rfl⟩

theorem settledOnes_settled : ∀ i j v, everywhere.contains i j = true →
    settledOnes.read? i j = some v → v.IsSettled := by
  intro i j v hmem hv
  have hposition : (i, j) ∈ [(0, 0), (0, 1), (1, 0), (1, 1)] := Pattern.mem_positions.2 hmem
  have hall : ∀ ij ∈ [(0, 0), (0, 1), (1, 0), (1, 1)],
      ∃ w, settledOnes.read? ij.1 ij.2 = some w ∧ w.IsSettled := by
    simp only [List.forall_mem_cons, List.not_mem_nil, false_implies, implies_true, and_true]
    exact ⟨⟨_, rfl, .infinite rfl⟩, ⟨_, rfl, .zero rfl⟩, ⟨_, rfl, .nan rfl⟩,
      ⟨_, rfl, .normal ⟨rfl, by decide⟩⟩⟩
  obtain ⟨w, hw, settled⟩ := hall (i, j) hposition
  obtain rfl : w = v := Option.some.inj (hw.symm.trans hv)
  exact settled

theorem write_again_settledOnes :
    (besideOnes settledOnes).Reachable ∧
      (besideOnes settledOnes).reading.matrix "m" = .ok settledOnes ∧
      (besideOnes settledOnes).reading.pattern "x" = .ok everywhere ∧
      everywhere.Fits settledOnes ∧ everywhere.size = settledOnes.rows ∧
      ∃ text t, (besideOnes settledOnes).step (.act (.matrix (.write "m" "x" none))) =
          (.ok (.text text), besideOnes settledOnes) ∧
        (besideOnes settledOnes).step (.load "n" text.toUTF8.toList "y") = (.ok .done, t) ∧
        t.step (.act (.matrix (.write "n" "y" none))) = (.ok (.text text), t) := by
  have hreachable : (besideOnes settledOnes).Reachable := .step _ (.step _ (.step _ .start))
  have fits : everywhere.Fits settledOnes := everywhere_fits_of_shape rfl
  have hmatrix : (besideOnes settledOnes).reading.matrix "m" = .ok settledOnes := rfl
  have hpattern : (besideOnes settledOnes).reading.pattern "x" = .ok everywhere := rfl
  obtain ⟨text, hwrite, hload⟩ := write_again hmatrix hpattern fits rfl settledOnes_settled
  have hones : (besideOnes settledOnes).reading.matrix "n" = .ok (.filled 2 2 .unit) := rfl
  obtain ⟨t, hstep, hagain⟩ :=
    hload (besideOnes settledOnes) hreachable "n" (.filled 2 2 .unit) hones rfl "y" (by decide)
  exact ⟨hreachable, hmatrix, hpattern, fits, rfl, text, t, hwrite, hstep, hagain⟩

end Store
end CowArrays
