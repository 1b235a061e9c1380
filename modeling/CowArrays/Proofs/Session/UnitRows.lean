import CowArrays.Proofs.Scalar.Products
import CowArrays.Proofs.Scalar.Sums
import CowArrays.Proofs.Session.Products
import CowArrays.Proofs.Session.Zeroing

/-!
Products of matrices with unit rows. All terms of such a row but one are zeros, of whatever sign, so
the sum is the one entry of the vector that they leave, and it is not rounded; the sums of the other
rows are what they were.
-/

namespace CowArrays

variable {p : Precision}

namespace Grid

variable {g h : Grid p} {v : Line p} {i k n : Nat}

theorem rowSum?_congr (hrow : ∀ j < n, g.read? i j = h.read? k j) :
    g.rowSum? v i n = h.rowSum? v k n := by
  induction n with
  | zero => rfl
  | succ n ih =>
    rw [rowSum?, rowSum?, ih fun j hj => hrow j (Nat.lt_succ_of_lt hj), hrow n (Nat.lt_succ_self n)]

/-- The sum over the first entries of a unit row is zero before the one, and from there on what the
factor of the one comes to when it is added to zero. -/
theorem rowSum?_unit (hv : ∀ a ∈ v, a.isFinite = true) {a : Scalar p} (ha : v[i]? = some a)
    (hn : n ≤ v.size) (hrow : ∀ j < n, g.read? i j = some (if i = j then .unit else .zero)) :
    g.rowSum? v i n = some (if i < n then .zero + a else .zero) := by
  have hnan : a.isNaN = false := Scalar.isNaN_of_isFinite (hv a (Array.mem_of_getElem? ha))
  induction n with
  | zero => rfl
  | succ n ih =>
    have hlast : v[n]? = some v[n] := Array.getElem?_eq_getElem hn
    have hzero : (.zero * v[n] : Scalar p).code = 0 :=
      Scalar.code_zero_mul (hv v[n] (Array.getElem_mem hn))
    rw [rowSum?, ih (Nat.le_of_succ_le hn) fun j hj => hrow j (Nat.lt_succ_of_lt hj),
      hrow n (Nat.lt_succ_self n), hlast]
    refine congrArg some ?_
    rcases Nat.lt_trichotomy i n with hlt | rfl | hgt
    · simp only [hlt, Nat.lt_succ_of_lt hlt, hlt.ne, if_true, if_false]
      exact Scalar.zero_add_add_of_code hnan hzero
    · obtain rfl : v[i] = a := Option.some.inj (hlast.symm.trans ha)
      simp only [Nat.lt_irrefl, Nat.lt_succ_self, if_true, if_false, Scalar.unit_mul hnan]
    · simp only [hgt.not_gt, hgt.ne', Nat.not_lt.2 hgt, if_false]
      exact Scalar.zero_add_of_code hzero

theorem exists_rowSum?_unit (hv : ∀ a ∈ v, a.isFinite = true) (hi : i < v.size)
    (hrow : ∀ j < v.size, g.read? i j = some (if i = j then .unit else .zero)) :
    ∃ a b, v[i]? = some a ∧ g.rowSum? v i v.size = some b ∧ b.same a = true := by
  have ha : v[i]? = some v[i] := Array.getElem?_eq_getElem hi
  have hsum := rowSum?_unit hv ha (Nat.le_refl _) hrow
  rw [if_pos hi] at hsum
  have hnan := Scalar.isNaN_of_isFinite (hv v[i] (Array.getElem_mem hi))
  exact ⟨v[i], _, ha, hsum, Scalar.same_zero_add hnan⟩

end Grid

namespace Store

variable {s : Store p} {of x y : Name} {g : Grid p} {v w : Line p} {walk : Walk}

theorem Sound.vector_step (hs : s.Sound) {t : Step p} {n : Name} (hn : n ∉ t.binds)
    (hv : s.reading.vector n = .ok v) : (s.step t).2.reading.vector n = .ok v := by
  rw [Reading.vector_eq_ok, hs.value?_step hn]
  exact Reading.vector_eq_ok.1 hv

/-- Whether a product of a matrix and a vector succeeds and leaves a line in another vector. -/
def Multiplies (s : Store p) (walk : Walk) (of x y : Name) (u : Line p) : Prop :=
  ∃ t, s.step (.act (.matrix (.multiply walk of x y))) = (.ok .done, t) ∧
    t.reading.vector y = .ok u

/-- A product whose sizes fit leaves the sum of each row. -/
theorem Sound.exists_multiplies (hs : s.Sound) (hg : s.reading.matrix of = .ok g)
    (hv : s.reading.vector x = .ok v) (hw : s.reading.vector y = .ok w) (hx : v.size = g.cols)
    (hy : w.size = g.rows) (walk : Walk) :
    ∃ u, s.Multiplies walk of x y u ∧ u.size = g.rows ∧
      ∀ i < g.rows, u[i]? = g.rowSum? v i v.size := by
  obtain ⟨u, hu, hsize, hentries⟩ := Grid.exists_apply walk hx hy
  exact ⟨u, hs.step_multiply hg hv hw hx hy hu, hsize.trans hy, hx ▸ hentries⟩

/-- What unit rows make of the products of a matrix and a vector. -/
structure UnitRowLaws (s : Store p) (of x y : Name) (g : Grid p) (v w : Line p) : Prop where
  /-- A row that was made a unit row lets the entry of its index through, and all other rows have
  the sums, bit for bit, that they had before. -/
  passes : v.size = g.cols → w.size = g.rows → ∀ walk i, i < g.rows → i < g.cols →
    ∃ before u t, s.Multiplies walk of x y before ∧
      s.step (.act (.matrix (.edit of (.unitRow i)))) = (.ok .done, t) ∧
      t.Multiplies walk of x y u ∧ u.size = g.rows ∧
      (∃ a b, v[i]? = some a ∧ u[i]? = some b ∧ b.same a = true) ∧
      ∀ k, k ≠ i → u[k]? = before[k]?
  /-- The identity lets all entries through. -/
  identity : w.size = v.size → ∀ walk out, out ≠ x → out ≠ y →
    ∃ u t, s.step (.act (.matrix (.identity v.size out))) = (.ok .done, t) ∧
      t.Multiplies walk out x y u ∧ u.size = v.size ∧
      ∀ i < v.size, ∃ a b, v[i]? = some a ∧ u[i]? = some b ∧ b.same a = true

/-- Unit rows pass finite entries on. -/
theorem Reachable.unitRowLaws (h : s.Reachable) (hg : s.reading.matrix of = .ok g)
    (hv : s.reading.vector x = .ok v) (hw : s.reading.vector y = .ok w)
    (hfinite : ∀ a ∈ v, a.isFinite = true) : s.UnitRowLaws of x y g v w := by
  constructor
  case passes =>
    intro hx hy walk i hi hc
    -- the name is that of a matrix, and so of no vector
    have hne {n : Name} {u : Line p} (hn : s.reading.vector n = .ok u) : n ∉ [of] := by
      intro hmem
      obtain rfl := List.mem_singleton.1 hmem
      cases (Reading.matrix_eq_ok.1 hg).symm.trans (Reading.vector_eq_ok.1 hn)
    obtain ⟨before, hbefore, hsize, hsums⟩ := h.sound.exists_multiplies hg hv hw hx hy walk
    obtain ⟨g', t, hstep, hmatrix, hshape, hread⟩ := h.sound.step_zeroes_run hg
      (.unitRow (i := i)) (by simp [Grid.bound, hi, hc])
    have ht := h.sound.step (.act (.matrix (.edit of (.unitRow i))))
    have hv' := h.sound.vector_step (t := .act (.matrix (.edit of (.unitRow i)))) (hne hv) hv
    have hw' := h.sound.vector_step (t := .act (.matrix (.edit of (.unitRow i)))) (hne hw) hw
    rw [hstep] at ht hv' hw'
    obtain ⟨hrows, hcols⟩ := Grid.shape_eq_iff.1 hshape
    obtain ⟨u, hu, husize, husums⟩ := ht.exists_multiplies hmatrix hv' hw' (hx.trans hcols.symm)
      (hy.trans hrows.symm) walk
    rw [hrows] at husize husums
    refine ⟨before, u, t, hbefore, hstep, hu, husize, ?_, fun k hk => ?_⟩
    · have hrow (j : Nat) (hj : j < v.size) :
          g'.read? i j = some (if i = j then .unit else .zero) := by
        obtain ⟨b, hb⟩ := Grid.exists_read? (g := g) ⟨hi, hx ▸ hj⟩
        rw [hread, hb]
        simp [eq_comm]
      obtain ⟨a, b, ha, hb, hsame⟩ := Grid.exists_rowSum?_unit hfinite (hx ▸ hc) hrow
      exact ⟨a, b, ha, (husums i hi).trans hb, hsame⟩
    · by_cases hlt : k < g.rows
      · rw [husums k hlt, hsums k hlt]
        refine Grid.rowSum?_congr fun j _ => ?_
        rw [hread]
        simp [hk]
      · rw [Array.getElem?_eq_none (by omega), Array.getElem?_eq_none (by omega)]
  case identity =>
    intro hsize walk out hx hy
    obtain ⟨one, hone, hshape, hread⟩ := Grid.exists_identity (p := p) v.size
    have hplan : s.plan (.act (.matrix (.identity v.size out))) =
        .ok ⟨.done, [.create .matrix out (.matrix one)]⟩ := by
      show (MatrixStep.identity v.size out).plan s.reading = _
      simp only [MatrixStep.plan, hone, Attempt.ok_bind]
      rfl
    obtain ⟨t, hstep, hvalue⟩ := h.sound.step_create hplan
    have ht := h.sound.step (.act (.matrix (.identity v.size out)))
    have hne {n : Name} (hn : out ≠ n) : n ∉ [out] := fun hmem => hn (List.mem_singleton.1 hmem).symm
    have hv' := h.sound.vector_step (t := .act (.matrix (.identity v.size out))) (hne hx) hv
    have hw' := h.sound.vector_step (t := .act (.matrix (.identity v.size out))) (hne hy) hw
    rw [hstep] at ht hv' hw'
    obtain ⟨hrows, hcols⟩ := Prod.mk.inj hshape
    obtain ⟨u, hu, husize, husums⟩ := ht.exists_multiplies (Reading.matrix_eq_ok.2 hvalue) hv' hw'
      hcols.symm (hsize.trans hrows.symm) walk
    refine ⟨u, t, hstep, hu, husize.trans hrows, fun i hi => ?_⟩
    obtain ⟨a, b, ha, hb, hsame⟩ := Grid.exists_rowSum?_unit hfinite hi fun j hj =>
      hread i j ⟨hi, hj⟩
    exact ⟨a, b, ha, (husums i (hrows ▸ hi)).trans hb, hsame⟩

def spikedGrid : Grid .double := ⟨2, 2, #[.nan true, .infinite false, .unit, .infinite true], rfl⟩

def leastLine : Line .double := #[.ofBits 1, .signedZero true]

def clonedLeast : Store .double :=
  Store.after {} [.act (.matrix (.create spikedGrid "m")),
    .act (.vector (.create .dense "x" leastLine)), .act (.sharing (.clone .vector "x" "y"))]

/-- The first row passes the least scalar on, and the sum of the second stays the NaN that it was. -/
theorem unitRowLaws_clonedLeast : clonedLeast.Reachable ∧ clonedLeast.strong 1 = 2 ∧
    (∀ a ∈ leastLine, a.isFinite = true) ∧ ∃ before u t,
      clonedLeast.Multiplies .byRow "m" "x" "y" before ∧
      clonedLeast.step (.act (.matrix (.edit "m" (.unitRow 0)))) = (.ok .done, t) ∧
      t.Multiplies .byRow "m" "x" "y" u ∧ (∃ b, u[0]? = some b ∧ b.same (.ofBits 1) = true) ∧
      u[1]? = before[1]? := by
  have hreachable : clonedLeast.Reachable := Reachable.start.after _
  have hmatrix : clonedLeast.reading.matrix "m" = .ok spikedGrid := rfl
  have hfactor : clonedLeast.reading.vector "x" = .ok leastLine := rfl
  have htarget : clonedLeast.reading.vector "y" = .ok leastLine := rfl
  have hfinite : ∀ a ∈ leastLine, a.isFinite = true := by decide +kernel
  have hlaws := hreachable.unitRowLaws hmatrix hfactor htarget hfinite
  obtain ⟨before, u, t, hbefore, hstep, hu, -, ⟨a, b, ha, hb, hsame⟩, hothers⟩ :=
    hlaws.passes rfl rfl .byRow 0 (by decide) (by decide)
  obtain rfl : .ofBits 1 = a := Option.some.inj ha
  exact ⟨hreachable, by decide, hfinite, before, u, t, hbefore, hstep, hu, ⟨b, hb, hsame⟩,
    hothers 1 (by decide)⟩

end Store
end CowArrays
