import CowArrays.Line.Mapped
import CowArrays.Proofs.Attempt

/-!
Raw operations on lines breach where they are misused. Where their guards hold they do not, and leave
the size as it is.
-/

namespace CowArrays

variable {p : Precision} {v w : Line p}

namespace Line

theorem checkRange_eq_ok {i : Nat} : v.checkRange i = .ok () ↔ i < v.size := by
  unfold checkRange
  split <;> simp_all

theorem checkRange_eq_error {i : Nat} (h : v.size ≤ i) :
    v.checkRange i = .error (.outOfRange (.vector i v.size)) :=
  if_neg (Nat.not_lt.2 h)

theorem entry_of_lt {i : Nat} (h : i < v.size) : v.entry i = .ok v[i] := dif_pos h

theorem entry_eq_breach {i : Nat} : v.entry i = .error .breach ↔ v.size ≤ i := by
  unfold entry
  split <;> simp_all

theorem put_eq_breach {i : Nat} {x : Scalar p} : v.put i x = .error .breach ↔ v.size ≤ i := by
  unfold put
  split <;> simp_all

theorem addScaled_eq_breach {a : Scalar p} :
    v.addScaled a w = .error .breach ↔ v.size ≠ w.size := by
  unfold addScaled
  split <;> simp_all

theorem entry_eq_ok {i : Nat} {x : Scalar p} : v.entry i = .ok x ↔ v[i]? = some x := by
  unfold entry
  split
  · rename_i hi
    rw [Array.getElem?_eq_getElem hi]
    simp
  · rename_i hi
    rw [Array.getElem?_eq_none (Nat.le_of_not_lt hi)]
    simp

theorem mapM_entry (v : Line p) : (List.range v.size).mapM v.entry = .ok v.toList := by
  refine Attempt.mapM_eq_ok.2 ⟨by simp, fun i k hk => ?_⟩
  obtain ⟨hi, rfl⟩ := List.getElem?_eq_some_iff.1 hk
  have hlt : i < v.size := by simpa using hi
  exact ⟨v[i], by simp [hlt], by simpa using entry_of_lt hlt⟩

theorem put_of_lt {i : Nat} (h : i < v.size) (x : Scalar p) :
    ∃ u, v.put i x = .ok u ∧ u.size = v.size :=
  ⟨v.set i x, dif_pos h, Array.size_set h⟩

theorem add_of_lt {i : Nat} (h : i < v.size) (x : Scalar p) :
    ∃ u, v.add i x = .ok u ∧ u.size = v.size := by
  rw [add, entry_of_lt h]
  exact put_of_lt h _

theorem addScaled_of_size (h : v.size = w.size) (a : Scalar p) :
    ∃ u, v.addScaled a w = .ok u ∧ u.size = v.size :=
  ⟨_, if_pos h, by simp [h]⟩

theorem shape_inj : v.shape = w.shape ↔ v.size = w.size := by
  simp [shape]

end Line

/-- The loop over the other vector stays inside as long as that is no longer. -/
theorem Mapped.addScaled_of_size (h : v.size = w.size) (a : Scalar p) :
    ∃ u, Mapped.addScaled v a w = .ok u ∧ u.size = v.size := by
  refine Attempt.foldlM_ok (fun u : Line p => u.size = v.size) rfl fun u i hi hu => ?_
  have hw : i < w.size := List.mem_range.1 hi
  obtain ⟨u', hu', hsize⟩ := Line.add_of_lt (show i < u.size by omega) (a * w[i])
  refine ⟨u', ?_, hsize.trans hu⟩
  rw [Line.entry_of_lt hw]
  exact hu'

end CowArrays
