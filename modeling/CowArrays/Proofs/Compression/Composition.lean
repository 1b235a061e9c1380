import CowArrays.Proofs.Compression.Filter

/-!
Compression after compression, and compression of patterns that are put together. What was kept can
be compressed again, thresholds may come in any order, the largest of them decides, and the union of
two patterns is compressed part by part.
-/

namespace CowArrays

variable {p : Precision} {P P' Q Q₁ Q₂ : Pattern} {g : Grid p} {t t₁ t₂ : Scalar p}

/-! ### Unions -/

def Columns.union (a b : Columns) : Columns := a.insertAll b.toList

theorem Columns.mem_union {a b : Columns} {c : Nat} : c ∈ a.union b ↔ c ∈ a ∨ c ∈ b := by
  rw [union, mem_insertAll, mem_def, mem_def, or_comm]

namespace Pattern

def union (P P' : Pattern) : Pattern := ⟨List.zipWith Columns.union P.rows P'.rows⟩

theorem size_union (h : P.size = P'.size) : (P.union P').size = P.size := by
  rw [size, union, List.length_zipWith]
  exact Nat.min_eq_left (Nat.le_of_eq h)

theorem contains_union (h : P.size = P'.size) (i j : Nat) :
    (P.union P').contains i j = true ↔ P.contains i j = true ∨ P'.contains i j = true := by
  by_cases hi : i < P.size
  · have hi' : i < P'.size := h ▸ hi
    have hrow : P.rows[i]? = some P.rows[i] := List.getElem?_eq_getElem hi
    have hrow' : P'.rows[i]? = some P'.rows[i] := List.getElem?_eq_getElem hi'
    have hunion : (P.union P').rows[i]? = some (P.rows[i].union P'.rows[i]) := by
      rw [union, List.getElem?_zipWith, hrow, hrow']
    rw [← mem_row_iff hunion, ← mem_row_iff hrow, ← mem_row_iff hrow', Columns.mem_union]
  · have hnone (R : Pattern) (hR : R.size = P.size) : ¬R.contains i j = true := by
      intro hc
      obtain ⟨columns, hcolumns, -⟩ := contains_iff.1 hc
      exact hi (hR ▸ (List.getElem?_eq_some_iff.1 hcolumns).1)
    simp [hnone _ (size_union h), hnone P rfl, hnone P' h.symm]

theorem within_union (h : P.size = P'.size) {cols : Nat} :
    (P.union P').Within cols ↔ P.Within cols ∧ P'.Within cols := by
  constructor
  · intro hwithin
    exact ⟨fun i j hj => hwithin i j ((contains_union h i j).2 (.inl hj)),
      fun i j hj => hwithin i j ((contains_union h i j).2 (.inr hj))⟩
  · rintro ⟨hP, hP'⟩ i j hj
    exact ((contains_union h i j).1 hj).elim (hP i j) (hP' i j)

/-- The first column outside a union is the first one outside one of its parts. -/
theorem FirstOutside.of_union (h : P.size = P'.size) {cols c : Nat}
    (hc : (P.union P').FirstOutside cols c) : P.FirstOutside cols c ∨ P'.FirstOutside cols c := by
  obtain ⟨i, hmem, hout, hleast, hbefore⟩ := hc
  have hleft (k j : Nat) (hj : P.contains k j = true) := (contains_union h k j).2 (.inl hj)
  have hright (k j : Nat) (hj : P'.contains k j = true) := (contains_union h k j).2 (.inr hj)
  refine ((contains_union h i c).1 hmem).imp (fun hc => ?_) fun hc => ?_
  · exact ⟨i, hc, hout, fun j hj => hleast j (hleft i j hj),
      fun k hk j hj => hbefore k hk j (hleft k j hj)⟩
  · exact ⟨i, hc, hout, fun j hj => hleast j (hright i j hj),
      fun k hk j hj => hbefore k hk j (hright k j hj)⟩

end Pattern

/-! ### Thresholds in a row -/

theorem Grid.Exceeds.mono {i j : Nat} (h : g.Exceeds t₂ i j) (hle : t₁.le t₂ = true) :
    g.Exceeds t₁ i j := by
  obtain ⟨x, hx, hlt⟩ := h
  exact ⟨x, hx, Scalar.lt_of_le_of_lt hle hlt⟩

theorem Grid.exceeds_and_iff {i j : Nat} : g.Exceeds t₁ i j ∧ g.Exceeds t₂ i j ↔
    ∃ x, g.read? i j = some x ∧ t₁.lt x.magnitude = true ∧ t₂.lt x.magnitude = true := by
  constructor
  · rintro ⟨⟨x, hx, h₁⟩, y, hy, h₂⟩
    obtain rfl := Option.some.inj (hx.symm.trans hy)
    exact ⟨x, hx, h₁, h₂⟩
  · rintro ⟨x, hx, h₁, h₂⟩
    exact ⟨⟨x, hx, h₁⟩, x, hx, h₂⟩

/-- What was kept can be compressed again, and keeps what exceeds both thresholds. -/
theorem compress_kept_iff (hQ : compress P g t₁ = .ok Q) (ht₂ : Scalar.zero.le t₂ = true)
    {R : Pattern} : compress Q g t₂ = .ok R ↔ R.size = P.size ∧
      ∀ i j, R.contains i j = true ↔
        P.contains i j = true ∧ g.Exceeds t₁ i j ∧ g.Exceeds t₂ i j := by
  obtain ⟨⟨-, hsize, hwithin⟩, hQsize, hkept⟩ := compress_eq_ok_iff.1 hQ
  have hQwithin : Q.Within g.cols := fun i j hj => hwithin i j ((hkept i j).1 hj).1
  rw [compress_eq_ok_iff, and_iff_right ⟨ht₂, hQsize.trans hsize, hQwithin⟩, hQsize]
  simp only [hkept, and_assoc]

/-- With another threshold, what was compressed once is not refused either. -/
theorem exists_compress_of_ok (hQ : compress P g t₁ = .ok Q) (ht₂ : Scalar.zero.le t₂ = true) :
    ∃ R, compress P g t₂ = .ok R := by
  obtain ⟨⟨-, hsize, hwithin⟩, -⟩ := compress_eq_ok_iff.1 hQ
  exact compress_ok ht₂ hsize hwithin

theorem exists_compress_of_kept (hQ : compress P g t₁ = .ok Q) (ht₂ : Scalar.zero.le t₂ = true) :
    ∃ R, compress Q g t₂ = .ok R := by
  obtain ⟨⟨-, hsize, hwithin⟩, hQsize, hkept⟩ := compress_eq_ok_iff.1 hQ
  exact compress_ok ht₂ (hQsize.trans hsize) fun i j hj => hwithin i j ((hkept i j).1 hj).1

theorem compress_kept_of_le (hQ₁ : compress P g t₁ = .ok Q₁) (hQ₂ : compress P g t₂ = .ok Q₂)
    (hle : t₁.le t₂ = true) : compress Q₁ g t₂ = .ok Q₂ ∧ compress Q₂ g t₁ = .ok Q₂ := by
  obtain ⟨⟨ht₁, -⟩, -⟩ := compress_eq_ok_iff.1 hQ₁
  obtain ⟨⟨ht₂, -⟩, hsize₂, hkept₂⟩ := compress_eq_ok_iff.1 hQ₂
  have hboth (i j : Nat) : g.Exceeds t₁ i j ∧ g.Exceeds t₂ i j ↔ g.Exceeds t₂ i j :=
    and_iff_right_of_imp fun h => h.mono hle
  constructor
  · refine (compress_kept_iff hQ₁ ht₂).2 ⟨hsize₂, fun i j => ?_⟩
    rw [hkept₂, hboth]
  · refine (compress_kept_iff hQ₂ ht₁).2 ⟨hsize₂, fun i j => ?_⟩
    rw [hkept₂, and_comm (a := g.Exceeds t₂ i j), hboth]

/-! ### Unions -/

theorem compress_union_eq_ok_iff (h : P.size = P'.size) {R : Pattern} :
    compress (P.union P') g t = .ok R ↔
      ∃ Q Q', compress P g t = .ok Q ∧ compress P' g t = .ok Q' ∧ R = Q.union Q' := by
  have hunion := Pattern.size_union h
  constructor
  · intro hR
    obtain ⟨⟨ht, hsize, hwithin⟩, hRsize, hkept⟩ := compress_eq_ok_iff.1 hR
    obtain ⟨hP, hP'⟩ := (Pattern.within_union h).1 hwithin
    obtain ⟨Q, hQ⟩ := compress_ok (t := t) ht (hunion.symm.trans hsize) hP
    obtain ⟨Q', hQ'⟩ := compress_ok (t := t) ht (h.symm.trans (hunion.symm.trans hsize)) hP'
    obtain ⟨-, hQsize, hQkept⟩ := compress_eq_ok_iff.1 hQ
    obtain ⟨-, hQsize', hQkept'⟩ := compress_eq_ok_iff.1 hQ'
    have hsizes : Q.size = Q'.size := hQsize.trans (h.trans hQsize'.symm)
    refine ⟨Q, Q', hQ, hQ', Pattern.eq_of_contains ?_ fun i j => ?_⟩
    · rw [hRsize, hunion, Pattern.size_union hsizes, hQsize]
    · rw [hkept, Pattern.contains_union h, Pattern.contains_union hsizes, hQkept, hQkept',
        or_and_right]
  · rintro ⟨Q, Q', hQ, hQ', rfl⟩
    obtain ⟨⟨ht, hsize, hP⟩, hQsize, hQkept⟩ := compress_eq_ok_iff.1 hQ
    obtain ⟨⟨-, -, hP'⟩, hQsize', hQkept'⟩ := compress_eq_ok_iff.1 hQ'
    have hsizes : Q.size = Q'.size := hQsize.trans (h.trans hQsize'.symm)
    refine compress_eq_ok_iff.2
      ⟨⟨ht, hunion.trans hsize, (Pattern.within_union h).2 ⟨hP, hP'⟩⟩, ?_, fun i j => ?_⟩
    · rw [Pattern.size_union hsizes, hunion, hQsize]
    · rw [Pattern.contains_union h, Pattern.contains_union hsizes, hQkept, hQkept', or_and_right]

/-- A union is refused for what one of its parts is refused for. -/
theorem compress_union_eq_error (h : P.size = P'.size) {failure : Failure}
    (hfail : compress (P.union P') g t = .error failure) :
    compress P g t = .error failure ∨ compress P' g t = .error failure := by
  have hunion := Pattern.size_union h
  rw [compress_eq_error_iff] at hfail ⊢
  rw [compress_eq_error_iff]
  cases hfail with
  | threshold ht => exact .inl (.threshold ht)
  | shape ht hsize =>
    rw [hunion] at hsize ⊢
    exact .inl (.shape ht hsize)
  | column ht hsize first =>
    rw [hunion] at hsize
    exact (first.of_union h).imp (.column ht hsize) (.column ht (h.symm.trans hsize))

/-! ### The laws -/

/-- What compressing against a grid comes to where it is done more than once, or to patterns that
are put together. -/
structure Composes (g : Grid p) : Prop where
  /-- Where a pattern is compressed once, it is with any other threshold, before and after. Both
  orders keep the same, which is what exceeds both thresholds. -/
  both : ∀ P Q₁ t₁ t₂, compress P g t₁ = .ok Q₁ → Scalar.zero.le t₂ = true →
    ∃ Q₂ R, compress P g t₂ = .ok Q₂ ∧ compress Q₁ g t₂ = .ok R ∧ compress Q₂ g t₁ = .ok R ∧
      R.size = P.size ∧ ∀ i j, R.contains i j = true ↔ P.contains i j = true ∧
        ∃ x, g.read? i j = some x ∧ t₁.lt x.magnitude = true ∧ t₂.lt x.magnitude = true
  /-- The larger threshold decides, whichever comes first. -/
  larger : ∀ P Q₁ Q₂ t₁ t₂, compress P g t₁ = .ok Q₁ → compress P g t₂ = .ok Q₂ →
    t₁.le t₂ = true → compress Q₁ g t₂ = .ok Q₂ ∧ compress Q₂ g t₁ = .ok Q₂
  /-- The same threshold again changes nothing. -/
  same : ∀ P Q t, compress P g t = .ok Q → compress Q g t = .ok Q
  /-- A larger threshold keeps nothing more. -/
  fewer : ∀ P Q₁ Q₂ t₁ t₂, compress P g t₁ = .ok Q₁ → compress P g t₂ = .ok Q₂ →
    t₁.le t₂ = true → ∀ i j, Q₂.contains i j = true → Q₁.contains i j = true
  /-- A union of patterns of one size is compressed where both parts are, to the union of what they
  come to. -/
  union : ∀ P P' t R, P.size = P'.size → (compress (P.union P') g t = .ok R ↔
    ∃ Q Q', compress P g t = .ok Q ∧ compress P' g t = .ok Q' ∧ R = Q.union Q')
  /-- It is refused for what one of them is refused for. -/
  refused : ∀ P P' t failure, P.size = P'.size → compress (P.union P') g t = .error failure →
    compress P g t = .error failure ∨ compress P' g t = .error failure

/-- Compressions commute, compose to the one with the larger threshold, and distribute over unions. -/
theorem compress_composes (g : Grid p) : Composes g := by
  constructor
  case both =>
    intro P Q₁ t₁ t₂ hQ₁ ht₂
    obtain ⟨⟨ht₁, -⟩, -⟩ := compress_eq_ok_iff.1 hQ₁
    obtain ⟨Q₂, hQ₂⟩ := exists_compress_of_ok hQ₁ ht₂
    obtain ⟨R, hR⟩ := exists_compress_of_kept hQ₁ ht₂
    obtain ⟨hsize, hkept⟩ := (compress_kept_iff hQ₁ ht₂).1 hR
    refine ⟨Q₂, R, hQ₂, hR, (compress_kept_iff hQ₂ ht₁).2 ⟨hsize, fun i j => ?_⟩, hsize,
      fun i j => ?_⟩
    · rw [hkept, and_comm (a := g.Exceeds t₂ i j)]
    · rw [hkept, Grid.exceeds_and_iff]
  case larger =>
    intro P Q₁ Q₂ t₁ t₂ hQ₁ hQ₂ hle
    exact compress_kept_of_le hQ₁ hQ₂ hle
  case same =>
    intro P Q t hQ
    obtain ⟨⟨ht, -⟩, -⟩ := compress_eq_ok_iff.1 hQ
    exact (compress_kept_of_le hQ hQ (Scalar.le_refl (Scalar.zero_le_iff.1 ht).1)).1
  case fewer =>
    intro P Q₁ Q₂ t₁ t₂ hQ₁ hQ₂ hle i j hij
    obtain ⟨-, -, hkept₁⟩ := compress_eq_ok_iff.1 hQ₁
    obtain ⟨-, -, hkept₂⟩ := compress_eq_ok_iff.1 hQ₂
    exact (hkept₁ i j).2 (((hkept₂ i j).1 hij).imp_right fun h => h.mono hle)
  case union =>
    intro P P' t R h
    exact compress_union_eq_ok_iff h
  case refused =>
    intro P P' t failure h
    exact compress_union_eq_error h

end CowArrays
