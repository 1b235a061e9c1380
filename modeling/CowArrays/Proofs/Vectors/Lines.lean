import CowArrays.Proofs.Storage.Lines
import CowArrays.Proofs.Storage.Octets

/-!
The two kinds of vectors do on lines what the other does, in another way: the sum by a loop is the
sum entry by entry, the comparison in order is the comparison of pairs, and the scalars that a view
sees of some octets are a part of all that lie there.
-/

namespace CowArrays

variable {p : Precision} {v w : Line p}

namespace Mapped

/-- What the loop of a sum has come to behind `n` entries. -/
theorem addScaled_loop (h : v.size = w.size) (a : Scalar p) {n : Nat} (hn : n ≤ w.size) :
    ∃ u : Line p, (List.range n).foldlM (fun v i => do v.add i (a * (← w.entry i))) v = .ok u ∧
      ∀ i x y, v[i]? = some x → w[i]? = some y →
        u[i]? = some (if i < n then x + a * y else x) := by
  induction n with
  | zero => exact ⟨v, rfl, fun i x y hx _ => by simp [hx]⟩
  | succ n ih =>
    obtain ⟨u, hu, hentries⟩ := ih (by omega)
    have hnw : n < w.size := by omega
    have hnv : n < v.size := by omega
    have hv : v[n]? = some v[n] := Array.getElem?_eq_getElem hnv
    have hw : w[n]? = some w[n] := Array.getElem?_eq_getElem hnw
    -- the entry that is next to be changed is still as it was
    have hlast := hentries n _ _ hv hw
    rw [if_neg (Nat.lt_irrefl n)] at hlast
    obtain ⟨hlt, hnth⟩ := Array.getElem?_eq_some_iff.1 hlast
    have hstep : u.add n (a * w[n]) = .ok (u.set n (v[n] + a * w[n])) := by
      simp [Line.add, Line.entry, Line.put, hlt, hnth]
    refine ⟨u.set n (v[n] + a * w[n]), ?_, fun i x y hx hy => ?_⟩
    · rw [List.range_succ, List.foldlM_append, hu, Attempt.ok_bind, List.foldlM_cons,
        Line.entry_of_lt hnw, Attempt.ok_bind, hstep, Attempt.ok_bind]
      rfl
    · have hi := hentries i x y hx hy
      rw [Array.getElem?_set]
      by_cases hin : n = i
      · subst hin
        obtain rfl : v[n] = x := Option.some.inj (hv.symm.trans hx)
        obtain rfl : w[n] = y := Option.some.inj (hw.symm.trans hy)
        simp
      · rw [if_neg hin, hi]
        congr 1
        grind

theorem addScaled_eq (h : v.size = w.size) (a : Scalar p) :
    Mapped.addScaled v a w = v.addScaled a w := by
  obtain ⟨u, hu, hentries⟩ := addScaled_loop h a (Nat.le_refl w.size)
  obtain ⟨u', hu', hsize⟩ := Mapped.addScaled_of_size h a
  obtain rfl : u = u' := Except.ok.inj (hu.symm.trans hu')
  rw [Line.addScaled, if_pos h, hu']
  refine congrArg Except.ok (Array.ext (by simp [hsize, h]) fun i hi _ => ?_)
  have hiw : i < w.size := by omega
  have hiv : i < v.size := by omega
  have hv : v[i]? = some v[i] := Array.getElem?_eq_getElem hiv
  have hw : w[i]? = some w[i] := Array.getElem?_eq_getElem hiw
  have hentry := hentries i _ _ hv hw
  rw [if_pos hiw, Array.getElem?_eq_getElem hi] at hentry
  simpa using Option.some.inj hentry

theorem same_go_eq {xs ys : List (Scalar p)} (h : xs.length = ys.length) :
    same.go xs ys = (xs.zip ys).all fun (x, y) => x.same y := by
  induction xs generalizing ys with
  | nil =>
    cases ys with
    | nil => rfl
    | cons y ys => cases h
  | cons x xs ih =>
    cases ys with
    | nil => cases h
    | cons y ys => simp [same.go, ih (Nat.succ.inj h)]

/-- Comparing in order is comparing pairs. -/
theorem same_eq (v w : Line p) : Mapped.same v w = v.same w := by
  unfold Mapped.same Line.same
  by_cases h : v.size = w.size
  · have hgo : same.go v.toList w.toList = _ := same_go_eq (by simpa using h)
    rw [hgo, ← Array.toList_zip, Array.all_toList]
  · rw [beq_false_of_ne h, Bool.false_and, Bool.false_and]

end Mapped

/-! ### Views of octets -/

/-- What a view sees is a part of what all octets spell. -/
theorem Line.ofOctets_eq_extract {octets : Octets} {start stop : Nat}
    (hstop : stop ≤ octets.length / p.byteSize) :
    Line.ofOctets (p := p) octets (start * p.byteSize) (stop - start) =
      (Line.ofAllOctets octets).extract start stop := by
  apply Array.toList_inj.1
  rw [Array.toList_extract, List.extract_eq_take_drop]
  simp only [Line.ofOctets, Line.ofAllOctets, List.drop_zero]
  rw [Scalar.drop_decode, Scalar.take_decode (by omega)]

end CowArrays
