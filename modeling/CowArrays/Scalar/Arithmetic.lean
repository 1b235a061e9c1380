import CowArrays.Scalar.Rounding

/-!
Arithmetic, order and conversion of scalars. Each operation is exact on integers and rounds once;
the order is that of signed codes, so it needs no exact values at all.
-/

namespace CowArrays
namespace Scalar

variable {p : Precision}

def neg (x : Scalar p) : Scalar p := { x with negative := !x.negative }

instance : Neg (Scalar p) := ⟨neg⟩

/-- Sum, rounded once. A sum that is exactly zero is negative only when both terms are. -/
def add (x y : Scalar p) : Scalar p :=
  if x.isNaN || y.isNaN then nan false
  else if x.isInfinite then
    if y.isInfinite && x.negative != y.negative then nan false else x
  else if y.isInfinite then y
  else
    let sum := x.value + y.value
    if sum = 0 then signedZero (x.negative && y.negative)
    else round (sum < 0) sum.natAbs 1

instance : Add (Scalar p) := ⟨add⟩

def sub (x y : Scalar p) : Scalar p := x + -y

instance : Sub (Scalar p) := ⟨sub⟩

def mul (x y : Scalar p) : Scalar p :=
  let negative := x.negative != y.negative
  if x.isNaN || y.isNaN then nan false
  else if x.isInfinite || y.isInfinite then
    if x.isZero || y.isZero then nan false else infinite negative
  else round negative (p.units x.code * p.units y.code) p.one

instance : Mul (Scalar p) := ⟨mul⟩

def div (x y : Scalar p) : Scalar p :=
  let negative := x.negative != y.negative
  if x.isNaN || y.isNaN then nan false
  else if x.isInfinite then if y.isInfinite then nan false else infinite negative
  else if y.isInfinite then signedZero negative
  else if y.isZero then if x.isZero then nan false else infinite negative
  else round negative (p.units x.code * p.one) (p.units y.code)

instance : Div (Scalar p) := ⟨div⟩

def ofNat (n : Nat) : Scalar p := round false (n * p.one) 1

def unit : Scalar p := ofNat 1

/-- Signed code: it orders all scalars but NaNs, and gives both zeros one place. -/
def key (x : Scalar p) : Int := if x.negative then -(x.code : Int) else x.code

def lt (x y : Scalar p) : Bool := !x.isNaN && !y.isNaN && decide (x.key < y.key)

/-- At most; never so with a NaN. -/
def le (x y : Scalar p) : Bool := !x.isNaN && !y.isNaN && decide (x.key ≤ y.key)

/-- Equal as numbers: a NaN differs from everything, and the zeros agree. -/
def same (x y : Scalar p) : Bool := !x.isNaN && !y.isNaN && decide (x.key = y.key)

/-- The scalar without its sign, except that zeros and NaNs stay as they are. -/
def magnitude (x : Scalar p) : Scalar p := if x.lt zero then -x else x

/-- The nearest scalar of another format. A NaN stays a NaN. -/
def convert {q : Precision} (x : Scalar q) : Scalar p :=
  if x.isNaN then nan x.negative
  else if x.isInfinite then infinite x.negative
  else round x.negative (q.units x.code * p.one) q.one

def ofDouble : {p : Precision} → Scalar .double → Scalar p
  | .single, x => convert x
  | .double, x => x

/-- The element as a 64-bit scalar; every value is kept. -/
def toDouble : {p : Precision} → Scalar p → Scalar .double
  | .single, x => convert x
  | .double, x => x

end Scalar
end CowArrays
