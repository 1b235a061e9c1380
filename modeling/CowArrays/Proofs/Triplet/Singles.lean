import CowArrays.Proofs.Scalar.Widening
import CowArrays.Proofs.Text.Decimals
import CowArrays.Proofs.Triplet.RoundTrip

/-!
Twelve places carry 32-bit scalars. On its way through a text such a scalar is rounded four times:
it is widened, cut to thirteen digits, read as 64 bits and narrowed. The first three roundings are
together off by less than half the distance to a neighbour, so the last one finds the scalar again.
-/

namespace CowArrays

/-- Three roundings, two of them to 64 bits and the one between them to thirteen digits, are
together off by less than half the distance of 32-bit neighbours. -/
theorem close_of_three {w a b e : ℚ} (hw : 0 < w) (ha : |a - w| * (2 * 2 ^ 52) ≤ w)
    (hb : |b - a| * (2 * 10 ^ 12) ≤ a) (he : |e - b| * (2 * 2 ^ 52) ≤ b) :
    |e - w| * (4 * 2 ^ 23) < w := by
  obtain ⟨-, ha'⟩ := half_le_of_close (by norm_num) ha
  obtain ⟨-, hb'⟩ := half_le_of_close (by norm_num) hb
  have htriangle : |e - w| ≤ |e - b| + |b - a| + |a - w| :=
    (abs_sub_le e a w).trans (add_le_add_left (abs_sub_le e b a) _)
  linarith

namespace Scalar

theorem IsProper.ofText?_scientific {v : Scalar .single} (hv : v.IsProper) :
    ofText? v.toDouble.scientific = some v := by
  obtain ⟨hlow, hhigh⟩ := hv.widened_bounds
  obtain ⟨hwide, hsign, ha⟩ := hv.toDouble_close
  obtain ⟨num, den, hden, hb, htext⟩ := hwide.exists_ofText?_scientific
  obtain ⟨b, hquantity⟩ : ∃ b : ℚ, (num / den : ℚ) = b := ⟨_, rfl⟩
  rw [hquantity] at hb
  obtain ⟨hlow₁, hhigh₁⟩ := half_le_of_close (by norm_num) ha
  obtain ⟨hlow₂, hhigh₂⟩ := half_le_of_close (by norm_num) hb
  obtain ⟨hread, he⟩ := round_double_close v.toDouble.negative hden hquantity
    (by linarith only [hlow, hlow₁, hlow₂]) (by linarith only [hhigh, hhigh₁, hhigh₂])
  have hclose := close_of_three (by linarith only [hlow]) ha hb he
  rw [htext, hv.ofDouble_eq hread ((round_negative _ num den).trans hsign) hclose]

/-- A 32-bit scalar comes back from its text, bit for bit, unless it is a NaN. -/
theorem ofText?_scientific_single {v : Scalar .single} (hnan : v.isNaN = false) :
    ofText? v.toDouble.scientific = some v := by
  rcases v.cases_proper with h | ⟨-, hinfinite⟩ | hzero | hv
  · exact absurd (hnan.symm.trans h) Bool.false_ne_true
  · have hv := eq_infinite hinfinite
    have hwide : v.toDouble = infinite v.negative :=
      (congrArg convert hv).trans (convert_infinite v.negative)
    have hback : ofDouble (infinite v.negative) = v := (convert_infinite v.negative).trans hv.symm
    rw [hwide, ofText?_scientific_of_isInfinite (isNaN_infinite _) (isInfinite_infinite _)]
    exact congrArg some hback
  · have hv := eq_signedZero hzero
    have hwide : v.toDouble = signedZero v.negative :=
      (congrArg convert hv).trans (convert_signedZero v.negative)
    have hback : ofDouble (signedZero v.negative) = v :=
      (convert_signedZero v.negative).trans hv.symm
    rw [hwide, ofText?_scientific_of_isZero rfl]
    exact congrArg some hback
  · exact hv.ofText?_scientific

theorem exists_ofText?_scientific_of_isNaN {v : Scalar .single} (hnan : v.isNaN = true) :
    ∃ w : Scalar .single, ofText? v.toDouble.scientific = some w ∧ w.isNaN = true := by
  have hwide : v.toDouble.isNaN = true := by
    show v.convert.isNaN = true
    rw [convert_of_isNaN hnan, nan_isNaN]
  refine ⟨_, ofText?_scientific_of_isNaN hwide .single, ?_⟩
  show (convert _).isNaN = true
  rw [convert_of_isNaN (nan_isNaN false), nan_isNaN]

/-- Whether a scalar is what is left of another one that was written and added to zero: a NaN is one
still, a zero has lost its sign, and everything else is the same, bit for bit. -/
structure IsKept {p : Precision} (v w : Scalar p) : Prop where
  nan : v.isNaN = true → w.isNaN = true
  zero : v.isZero = true → w = .zero
  same : v.isNaN = false → v.isZero = false → w = v

theorem exists_kept (v : Scalar .single) :
    ∃ w, ofText? v.toDouble.scientific = some w ∧ v.IsKept (.zero + w) := by
  cases hnan : v.isNaN with
  | true =>
    obtain ⟨w, hw, hnan'⟩ := exists_ofText?_scientific_of_isNaN hnan
    refine ⟨w, hw, fun _ => isNaN_zero_add hnan', fun hzero => ?_, fun hno => ?_⟩
    · simp only [isNaN, isZero, decide_eq_true_eq, beq_iff_eq] at hnan hzero
      omega
    · exact absurd (hno.symm.trans hnan) Bool.false_ne_true
  | false =>
    refine ⟨v, ofText?_scientific_single hnan, fun hyes => ?_, fun hzero => ?_, fun _ hzero => ?_⟩
    · exact absurd (hnan.symm.trans hyes) Bool.false_ne_true
    · exact zero_add_of_code (beq_iff_eq.1 hzero)
    · exact zero_add_eq hnan (beq_eq_false_iff_ne.1 hzero)

end Scalar

/-! ### Grids -/

namespace Triplet

variable {p q : Precision} {g : Grid p} {x : Pattern}

/-- A grid that holds what was written of another one has the sum of zero and the one value that was
written at a position. -/
theorem Holds.entry_again {rows cols : Nat} {g' : Grid q} {y : Pattern}
    (h : Holds ((entriesAt g x).map again) rows cols g' y) {i j : Nat} (hi : i < rows)
    (hj : j < cols) {v : Scalar p} (hmem : x.contains i j = true) (hv : g.read? i j = some v)
    {w : Scalar q} (hw : Scalar.ofText? v.toDouble.scientific = some w) :
    g'.read? i j = some (.zero + w) := by
  obtain ⟨l, hl, rfl⟩ := Option.map_eq_some_iff.1 hw
  have he : (i, j, v) ∈ entriesAt g x := mem_entriesAt.2 ⟨hmem, by rw [hv]; rfl⟩
  have hsum := sumAt_of_apart (p := q) apart_again (List.mem_map_of_mem he) .zero
  rw [again, reread_eq hl, sumAt_eq_foldl] at hsum
  rw [h.entry i j hi hj, total, hsum]

end Triplet

/-! ### Sessions -/

namespace Store

variable {p q : Precision}

/-- The text of a matrix loads into every matrix of its shape. -/
theorem Sound.step_load_textOf {u : Store q} (hu : u.Sound) {g : Grid p} {x : Pattern}
    (fits : x.Fits g) {target out : Name} {w : Grid q} (hw : u.reading.matrix target = .ok w)
    (hshape : w.shape = g.shape) (hout : out ≠ target) :
    ∃ t g' y, u.step (.load target (Triplet.textOf g x).toUTF8.toList out) = (.ok .done, t) ∧
      t.reading.matrix target = .ok g' ∧ t.reading.pattern out = .ok y ∧
      Triplet.Holds ((Triplet.entriesAt g x).map Triplet.again) g.rows g.cols g' y := by
  obtain ⟨hrows, hcols⟩ : w.rows = g.rows ∧ w.cols = g.cols := Prod.mk.inj hshape
  have inside : ∀ t ∈ (Triplet.entriesAt g x).map Triplet.again,
      t.row < w.rows ∧ t.col < w.cols := by
    rw [hrows, hcols]
    exact fun t => Triplet.inside_of_mem_again fits
  rw [← hrows, ← hcols]
  exact hu.step_load_holds hw hout (Triplet.readFeed_of_readAll (Triplet.readAll_textOf fits)) inside

/-- Twelve places carry 32-bit scalars. Each of them comes back from its text bit for bit, and a NaN
as one; so a matrix of such scalars that is written at a pattern and loaded into any matrix of its
shape has its entries there again, only that a zero comes without its sign. -/
theorem singles_survive_text :
    (∀ v : Scalar .single, v.isNaN = false → Scalar.ofText? v.toDouble.scientific = some v) ∧
    (∀ v : Scalar .single, v.isNaN = true →
      ∃ w : Scalar .single, Scalar.ofText? v.toDouble.scientific = some w ∧ w.isNaN = true) ∧
    ∀ (s : Store .single) source pattern g x, s.reading.matrix source = .ok g →
      s.reading.pattern pattern = .ok x → x.Fits g →
      ∃ text : String,
        s.step (.act (.matrix (.write source pattern none))) = (.ok (.text text), s) ∧
        ∀ u : Store .single, u.Reachable → ∀ target w, u.reading.matrix target = .ok w →
          w.shape = g.shape → ∀ out, out ≠ target →
          ∃ t g' y, u.step (.load target text.toUTF8.toList out) = (.ok .done, t) ∧
            t.reading.matrix target = .ok g' ∧ t.reading.pattern out = .ok y ∧
            ∀ i j v, x.contains i j = true → g.read? i j = some v →
              ∃ w, g'.read? i j = some w ∧ v.IsKept w := by
  refine ⟨fun v => Scalar.ofText?_scientific_single,
    fun v => Scalar.exists_ofText?_scientific_of_isNaN, fun s source pattern g x hg hx fits => ?_⟩
  refine ⟨Triplet.textOf g x, step_write hg hx fun i j hmem => (fits i j hmem).1, ?_⟩
  intro u hu target w hw hshape out hout
  obtain ⟨t, g', y, hstep, hmatrix, hpattern, hholds⟩ :=
    hu.sound.step_load_textOf fits hw hshape hout
  refine ⟨t, g', y, hstep, hmatrix, hpattern, fun i j v hmem hv => ?_⟩
  obtain ⟨w, hw, hkept⟩ := v.exists_kept
  have ⟨hi, hj⟩ := (fits i j hmem).1
  exact ⟨.zero + w, hholds.entry_again hi hj hmem hv hw, hkept⟩

def extremes : Grid .single :=
  ⟨2, 2, #[.signedZero true, .nan true, .ofBits 1, .ofBits 0x7F7FFFFF], rfl⟩

def everywhere : Pattern := .ofLists [[0, 1], [0, 1]]

def extremeStore : Store .single :=
  ((({} : Store .single).step (.act (.matrix (.create extremes "m")))).2.step
    (.act (.pattern (.create everywhere "x")))).2.step
      (.act (.matrix (.filled 2 2 .unit "n"))) |>.2

theorem everywhere_fits_of_shape {g : Grid p} (hshape : g.shape = (2, 2)) : everywhere.Fits g := by
  have ⟨hrows, hcols⟩ : g.rows = 2 ∧ g.cols = 2 := Prod.mk.inj hshape
  intro i j hmem
  have hposition : (i, j) ∈ [(0, 0), (0, 1), (1, 0), (1, 1)] := Pattern.mem_positions.2 hmem
  have hall : ∀ ij ∈ [(0, 0), (0, 1), (1, 0), (1, 1)],
      (ij.1 < 2 ∧ ij.2 < 2) ∧ ij.1 < indexLimit ∧ ij.2 < indexLimit := by decide
  rw [hrows, hcols]
  exact hall (i, j) hposition

theorem everywhere_fits : everywhere.Fits extremes := everywhere_fits_of_shape rfl

theorem singles_survive_text_extremes :
    extremeStore.Reachable ∧ extremeStore.reading.matrix "m" = .ok extremes ∧
      extremeStore.reading.pattern "x" = .ok everywhere ∧ everywhere.Fits extremes ∧
      Scalar.ofText? (Scalar.ofBits 1 : Scalar .single).toDouble.scientific =
        some (Scalar.ofBits 1 : Scalar .single) ∧
      (∃ w : Scalar .single,
        Scalar.ofText? (Scalar.nan true : Scalar .single).toDouble.scientific = some w ∧
          w.isNaN = true) ∧
      ∃ text t g' y, extremeStore.step (.act (.matrix (.write "m" "x" none))) =
          (.ok (.text text), extremeStore) ∧
        extremeStore.step (.load "n" text.toUTF8.toList "y") = (.ok .done, t) ∧
        t.reading.matrix "n" = .ok g' ∧ t.reading.pattern "y" = .ok y ∧
        ∃ w, g'.read? 1 1 = some w ∧ (Scalar.ofBits 0x7F7FFFFF : Scalar .single).IsKept w := by
  have hreachable : extremeStore.Reachable := .step _ (.step _ (.step _ .start))
  obtain ⟨hsame, hnan, hgrids⟩ := singles_survive_text
  obtain ⟨text, hwrite, hload⟩ := hgrids extremeStore "m" "x" extremes everywhere rfl rfl
    everywhere_fits
  obtain ⟨t, g', y, hstep, hmatrix, hpattern, hkept⟩ :=
    hload extremeStore hreachable "n" (.filled 2 2 .unit) rfl rfl "y" (by decide)
  exact ⟨hreachable, rfl, rfl, everywhere_fits, hsame _ (by decide), hnan _ (by decide), text, t, g',
    y, hwrite, hstep, hmatrix, hpattern, hkept 1 1 _ rfl rfl⟩

end Store
end CowArrays
