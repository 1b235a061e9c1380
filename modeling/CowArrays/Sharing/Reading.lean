import CowArrays.Sharing.Store

/-!
What a step can read of a store: the values of the variables and the contents of the files, without
cells, owners or counts.
-/

namespace CowArrays

inductive Value (p : Precision)
  | container (kind : Kind) (x : Payload p)
  | shared (x : Payload p)
  | observer
  | pattern (pattern : Pattern)
  | buffer (v : Line p)

structure Reading (p : Precision) where
  value? : Name → Option (Value p)
  file? : Name → Option Octets

namespace Store

variable {p : Precision}

def payload (s : Store p) : Content p → Payload p
  | .vector v => .vector v
  | .mapped m => .mapped (m.line s.octets) m.isView
  | .matrix g => .matrix g
  | .list v => .list v

def payload? (s : Store p) (c : CellId) : Option (Payload p) :=
  s.cells[c]?.map fun x => s.payload x.content

/-- The scalars that a source holds, stored back to back. -/
def sourceLine (s : Store p) (source : SourceId) : Line p := .ofAllOctets (s.octets source)

def value (s : Store p) : Binding p → Option (Value p)
  | .container kind c => (s.payload? c).map (.container kind)
  | .shared c => (s.payload? c).map .shared
  | .observer _ => some .observer
  | .pattern pattern => some (.pattern pattern)
  | .buffer source => some (.buffer (s.sourceLine source))

def reading (s : Store p) : Reading p where
  value? name := (s.find? name).bind s.value
  file? name := (s.files.lookup name).map s.octets

end Store

namespace Reading

variable {p : Precision}

def get {α : Type} (r : Reading p) (name : Name) (form : Value p → Option α) : Attempt α :=
  match (r.value? name).bind form with
  | some x => .ok x
  | none => .error (.unknown name)

def container (r : Reading p) (kind : Kind) (name : Name) : Attempt (Payload p) :=
  r.get name fun
    | .container k x => if k = kind then some x else none
    | _ => none

def vector (r : Reading p) (name : Name) : Attempt (Line p) :=
  r.get name fun
    | .container .vector (.vector v) => some v
    | _ => none

def mapped (r : Reading p) (name : Name) : Attempt (Line p × Bool) :=
  r.get name fun
    | .container .mapped (.mapped v isView) => some (v, isView)
    | _ => none

def matrix (r : Reading p) (name : Name) : Attempt (Grid p) :=
  r.get name fun
    | .container .matrix (.matrix g) => some g
    | _ => none

def list (r : Reading p) (name : Name) : Attempt (Line p) :=
  r.get name fun
    | .container .handle (.list v) => some v
    | _ => none

def shared (r : Reading p) (name : Name) : Attempt (Payload p) :=
  r.get name fun
    | .shared x => some x
    | _ => none

def pattern (r : Reading p) (name : Name) : Attempt Pattern :=
  r.get name fun
    | .pattern x => some x
    | _ => none

def buffer (r : Reading p) (name : Name) : Attempt (Line p) :=
  r.get name fun
    | .buffer v => some v
    | _ => none

def file (r : Reading p) (name : Name) : Attempt Octets :=
  match r.file? name with
  | some octets => .ok octets
  | none => .error (.stream .missing)

end Reading
end CowArrays
