import CowArrays.Proofs.Compression.Schedules
import CowArrays.Proofs.Scalar.Extents

/-!
Compression with settings compares with a threshold that was narrowed to the elements of the grid.
Nothing at or below the exact threshold is kept, and what is above it is dropped only where it equals
the narrowed one.
-/

namespace CowArrays

variable {p : Precision} {P Q : Pattern} {g : Grid p} {t : Scalar .double}

/-- Whether an entry is there, no NaN and above a threshold in exact magnitude. -/
def Grid.Surpasses (g : Grid p) (t : Scalar .double) (i j : Nat) : Prop :=
  ∃ x, g.read? i j = some x ∧ x.isNaN = false ∧ (t.rational : WithTop ℚ) < x.extent

/-- What a compressed pattern has to do with the exact threshold. -/
structure KeepsDirection (P : Pattern) (g : Grid p) (t : Scalar .double) (Q : Pattern) : Prop where
  /-- Nothing at or below the threshold is kept. -/
  kept : ∀ i j, Q.contains i j = true → P.contains i j = true ∧ g.Surpasses t i j
  /-- What is above it and dropped equals the narrowed threshold. -/
  dropped : ∀ i j x, P.contains i j = true → Q.contains i j = false → g.read? i j = some x →
    x.isNaN = false → (t.rational : WithTop ℚ) < x.extent → x.magnitude.same (.ofDouble t) = true
  /-- Where the threshold is an element or rounded downwards, all that is above it is kept. -/
  filter : (∃ v : Scalar p, v.isFinite = true ∧ v.rational = t.rational) ∨
      (.ofDouble t : Scalar p).extent < t.rational →
    ∀ i j, Q.contains i j = true ↔ P.contains i j = true ∧ g.Surpasses t i j

theorem keepsDirection_of_compress (ht : t.isFinite = true) (hsign : Scalar.zero.le t = true)
    (hQ : compress P g (.ofDouble t) = .ok Q) : KeepsDirection P g t Q := by
  obtain ⟨⟨hround, -, -⟩, -, hmem⟩ := compress_eq_ok_iff.1 hQ
  have hextent := Scalar.extent_of_zero_le ht hsign
  have hnan := Scalar.isNaN_ofDouble (p := p) (Scalar.isNaN_of_isFinite ht)
  have hkept (i j : Nat) (hc : Q.contains i j = true) :
      P.contains i j = true ∧ g.Surpasses t i j := by
    obtain ⟨hin, x, hx, hlt⟩ := (hmem i j).1 hc
    obtain ⟨hxnan, hcode⟩ := (Scalar.lt_magnitude_iff hround).1 hlt
    exact ⟨hin, x, hx, hxnan, hextent ▸ Scalar.extent_lt_of_ofDouble_lt ht hxnan hcode⟩
  -- an entry above the threshold is above the narrowed one or has its code
  have hdropped (i j : Nat) (x : Scalar p) (hin : P.contains i j = true)
      (hout : Q.contains i j = false) (hx : g.read? i j = some x) (hxnan : x.isNaN = false)
      (hlt : (t.rational : WithTop ℚ) < x.extent) : x.code = (.ofDouble t : Scalar p).code := by
    rw [← hextent] at hlt
    refine Nat.le_antisymm (Nat.le_of_not_lt fun hcode => ?_) (Scalar.ofDouble_code_le ht hlt.le)
    have hc := (hmem i j).2 ⟨hin, x, hx, (Scalar.lt_magnitude_iff hround).2 ⟨hxnan, hcode⟩⟩
    rw [hout] at hc
    cases hc
  constructor
  case kept => exact hkept
  case dropped =>
    intro i j x hin hout hx hxnan hlt
    refine Scalar.same_iff.2 ⟨Scalar.isNaN_magnitude.trans hxnan, hnan, ?_⟩
    rw [Scalar.key_magnitude hxnan, Scalar.key_of_zero_le hround,
      hdropped i j x hin hout hx hxnan hlt]
  case filter =>
    intro hexact i j
    have hle : (.ofDouble t : Scalar p).extent ≤ t.rational := by
      rcases hexact with ⟨v, hv, heq⟩ | hlt
      · rw [← hextent]
        refine (Scalar.extent_ofDouble_of_eq ht hv ?_).le
        rw [Scalar.extent_of_isFinite hv, Scalar.extent_of_isFinite ht, heq]
      · exact hlt.le
    refine ⟨hkept i j, fun ⟨hin, x, hx, hxnan, hlt⟩ => ?_⟩
    by_contra hout
    have hcode := hdropped i j x hin (Bool.not_eq_true _ ▸ hout) hx hxnan hlt
    rw [(Scalar.extent_eq_iff hxnan hnan).2 hcode] at hlt
    exact absurd hlt hle.not_gt

/-- Settings with a finite threshold of at least zero keep its direction, whichever way they choose
and whatever the elements: nothing at or below it is kept, and what is above it is dropped only where
it equals the threshold as it was narrowed. -/
theorem settings_keep_direction {s : Settings} {schedule : Schedule} {P Q : Pattern} {g : Grid p}
    (hschedule : (schedule P.size).Perm (List.range P.size))
    (hfinite : s.threshold.isFinite = true) (hsign : Scalar.zero.le s.threshold = true)
    (hQ : s.compress schedule P g = .ok Q) : KeepsDirection P g s.threshold Q :=
  keepsDirection_of_compress hfinite hsign (((agrees_settings s hschedule).ok Q).1 hQ)

/-- A tenth is narrowed upwards in 32 bits: an entry of this size is above the threshold and dropped,
the next larger one is kept, and so is an infinity; what is just below a tenth is not. -/
theorem settings_keep_direction_tenth :
    let s : Settings := ⟨.ofBits 0x3FB999999999999A, true, 1⟩
    let backwards : Schedule := fun n => (List.range n).reverse
    let P : Pattern := .full 2 2
    let g : Grid .single := ⟨2, 2, #[.ofBits 0x3DCCCCCD, .ofBits 0xBDCCCCCE,
      .infinite true, .ofBits 0x3DCCCCCC], rfl⟩
    let Q : Pattern := .ofLists [[1], [0]]
    (backwards P.size).Perm (List.range P.size) ∧ s.threshold.isFinite = true ∧
      Scalar.zero.le s.threshold = true ∧ s.compress backwards P g = .ok Q ∧
      g.Surpasses s.threshold 0 0 ∧ KeepsDirection P g s.threshold Q := by
  intro s backwards P g Q
  have hperm : (backwards P.size).Perm (List.range P.size) := List.reverse_perm _
  have hQ : s.compress backwards P g = .ok Q := by decide +kernel
  have habove : g.Surpasses s.threshold 0 0 := ⟨.ofBits 0x3DCCCCCD, rfl, by decide, by decide +kernel⟩
  exact ⟨hperm, by decide, by decide, hQ, habove,
    settings_keep_direction hperm (by decide) (by decide) hQ⟩

end CowArrays
