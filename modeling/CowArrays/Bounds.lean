import CowArrays.Failure
import CowArrays.Scalar.Arithmetic

/-!
The checks that containers make before they act.
-/

namespace CowArrays

def checkIndex (axis : Axis) (index bound : Nat) : Attempt Unit :=
  if index < bound then .ok () else .error (.refused (.indexOutOfRange axis index bound))

def checkRow (row rows : Nat) : Attempt Unit := checkIndex .row row rows

def checkCol (col cols : Nat) : Attempt Unit := checkIndex .column col cols

def checkShape (expected found : Shape) : Attempt Unit :=
  if expected = found then .ok () else .error (.refused (.shapeMismatch expected found))

/-- A threshold has to be at least zero; a NaN is not. -/
def checkThreshold {p : Precision} (threshold : Scalar p) : Attempt Unit :=
  if Scalar.zero.le threshold then .ok () else .error (.refused .invalidThreshold)

theorem checkIndex_eq_ok {axis : Axis} {index bound : Nat} :
    checkIndex axis index bound = .ok () ↔ index < bound := by
  unfold checkIndex; split <;> simp_all

theorem checkIndex_eq_error {axis : Axis} {index bound : Nat} (h : bound ≤ index) :
    checkIndex axis index bound = .error (.refused (.indexOutOfRange axis index bound)) :=
  if_neg (Nat.not_lt.2 h)

theorem checkShape_eq_ok {expected found : Shape} :
    checkShape expected found = .ok () ↔ expected = found := by
  unfold checkShape; split <;> simp_all

theorem checkShape_eq_error {expected found : Shape} (h : expected ≠ found) :
    checkShape expected found = .error (.refused (.shapeMismatch expected found)) :=
  if_neg h

end CowArrays
