import CowArrays.Bounds

/-!
Lines, the one-dimensional storages. The raw operations breach when they are used outside a line or
on lines of different sizes, so whoever uses them has to pass the guards first.
-/

namespace CowArrays

abbrev Line (p : Precision) := Array (Scalar p)

namespace Line

variable {p : Precision}

/-! ### Raw operations -/

def filled (size : Nat) (x : Scalar p) : Line p := Array.replicate size x

def entry (v : Line p) (i : Nat) : Attempt (Scalar p) :=
  if h : i < v.size then .ok v[i] else .error .breach

def put (v : Line p) (i : Nat) (x : Scalar p) : Attempt (Line p) :=
  if h : i < v.size then .ok (v.set i x) else .error .breach

def scale (v : Line p) (a : Scalar p) : Line p := v.map (· * a)

def add (v : Line p) (i : Nat) (x : Scalar p) : Attempt (Line p) := do
  v.put i ((← v.entry i) + x)

def addScaled (v : Line p) (a : Scalar p) (w : Line p) : Attempt (Line p) :=
  if v.size = w.size then .ok (Array.zipWith (fun x y => x + a * y) v w) else .error .breach

/-! ### Guards -/

def checkRange (v : Line p) (i : Nat) : Attempt Unit :=
  if i < v.size then .ok () else .error (.outOfRange (.vector i v.size))

def read (v : Line p) (i : Nat) : Attempt (Scalar p) := do
  v.checkRange i
  v.entry i

/-- A line is a matrix of one column. -/
def shape (v : Line p) : Shape := (v.size, 1)

def same (v w : Line p) : Bool :=
  v.size == w.size && (v.zip w).all fun (x, y) => x.same y

end Line
end CowArrays
