import CowArrays.Scalar.Format

/-!
Rounding to nearest, a half going to the even neighbour: of a quotient to an integer, and of an
exact quantity of units to the code of a scalar. All arithmetic on scalars is one exact integer
computation followed by this one rounding.
-/

namespace CowArrays

/-- The integer nearest to `num / den`; a half goes to the even neighbour. -/
def roundHalfEven (num den : Nat) : Nat :=
  let q := num / den
  let twice := 2 * (num % den)
  if twice < den then q else if den < twice then q + 1 else q + q % 2

theorem le_roundHalfEven (num den : Nat) : num / den ≤ roundHalfEven num den := by
  grind [roundHalfEven]

theorem roundHalfEven_le (num den : Nat) : roundHalfEven num den ≤ num / den + 1 := by
  grind [roundHalfEven]

namespace Precision

/-- Code of the scalar nearest to `num / den` units. The quantity is scaled down by two to the
power of `s` until its integer part fits a significand, and rounded to `r`. The code is then
`s * 2 ^ fractionBits + r`, also where `r` is the next power of two. What would pass the largest
finite scalar is infinite. -/
def nearest (p : Precision) (num den : Nat) : Nat :=
  let s := Nat.log2 (num / den) - p.fractionBits
  min (s * 2 ^ p.fractionBits + roundHalfEven num (den * 2 ^ s)) p.infinity

theorem nearest_le (p : Precision) (num den : Nat) : p.nearest num den ≤ p.infinity :=
  Nat.min_le_right _ _

theorem nearest_zero (p : Precision) {den : Nat} (h : 0 < den) : p.nearest 0 den = 0 := by
  cases p <;> simp [nearest, roundHalfEven, h]

end Precision

def Scalar.round {p : Precision} (negative : Bool) (num den : Nat) : Scalar p :=
  .ofCode negative (p.nearest num den) (p.nearest_le num den)

end CowArrays
