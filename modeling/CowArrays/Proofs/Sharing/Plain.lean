import CowArrays.Session.Step

/-!
Plain value semantics: the reference that copy-on-write is measured against. There are no cells and
no counts. Every variable has a payload to itself, whatever shares a cell in a store is a copy here,
and a change of a variable changes the payload of this variable and of no other.
-/

namespace CowArrays

variable {p : Precision}

def Payload.owned : Payload p → Payload p
  | mapped v _ => mapped v false
  | x => x

/-- What there is to read once a container has a cell of its own: it is no view any more. -/
def Reading.own (r : Reading p) (name : Name) : Reading p :=
  { r with value? := fun n =>
      if n = name then match r.value? name with
        | some (.container kind x) => some (.container kind x.owned)
        | value => value
      else r.value? n }

/-- What a variable has to itself. -/
inductive Item (p : Precision)
  | container (kind : Kind) (x : Payload p)
  | shared (x : Payload p)
  /-- An observer remembers what it was made of. -/
  | observer (x : Payload p)
  | pattern (pattern : Pattern)
  | buffer (octets : Octets)

def Item.owned? : Item p → Option (Payload p)
  | container _ x => some x
  | shared x => some x
  | _ => none

/-- The payload that an item has or remembers. -/
def Item.payload? : Item p → Option (Payload p)
  | container _ x => some x
  | shared x => some x
  | observer x => some x
  | _ => none

def Item.toContainer? (kind : Kind) (i : Item p) : Option (Item p) :=
  i.owned?.map (.container kind)

def Item.toShared? (i : Item p) : Option (Item p) := i.payload?.map .shared

def Item.toObserver? (i : Item p) : Option (Item p) := i.owned?.map .observer

def Item.value : Item p → Value p
  | container kind x => .container kind x
  | shared x => .shared x
  | observer _ => .observer
  | pattern x => .pattern x
  | buffer octets => .buffer (.ofAllOctets octets)

@[ext] structure Plain (p : Precision) where
  item? : Name → Option (Item p) := fun _ => none
  file? : Name → Option Octets := fun _ => none

namespace Plain

def reading (s : Plain p) : Reading p where
  value? name := (s.item? name).map Item.value
  file? := s.file?

def set (s : Plain p) (name : Name) (item : Item p) : Plain p :=
  { s with item? := fun n => if n = name then some item else s.item? n }

def remove (s : Plain p) (name : Name) : Plain p :=
  { s with item? := fun n => if n = name then none else s.item? n }

def putFile (s : Plain p) (name : Name) (octets : Octets) : Plain p :=
  { s with file? := fun n => if n = name then some octets else s.file? n }

def rename (s : Plain p) (name target : Name) : Plain p :=
  match s.item? name with
  | some item => (s.remove name).set target item
  | none => s

/-- Sets a variable to what can be made of the item of another, if anything can. -/
def derive (s : Plain p) (name source : Name) (f : Item p → Option (Item p)) : Plain p :=
  match (s.item? source).bind f with
  | some item => s.set name item
  | none => s

/-- A mapped vector stops being a view when it is about to be changed. -/
def own (s : Plain p) (name : Name) : Plain p :=
  match s.item? name with
  | some (.container kind x) => s.set name (.container kind x.owned)
  | _ => s

def put (s : Plain p) (name : Name) (x : Payload p) : Plain p :=
  match s.item? name with
  | some (.container kind _) => s.set name (.container kind x)
  | _ => s

def settle (s : Plain p) (name : Name) (e : Edited p) : Plain p :=
  let s := s.put name e.payload.owned
  match e.pattern with
  | some (out, pattern) => s.set out (.pattern pattern)
  | none => s

def edit (s : Plain p) (name : Name) (run : Reading p → Attempt (Edited p)) :
    Attempt Unit × Plain p :=
  match run (s.own name).reading with
  | .ok e => (.ok (), (s.own name).settle name e)
  | .error failure => (.error failure, s)

/-- The octets of an origin as they are now. -/
def resolve (s : Plain p) : Origin → Option Octets
  | .buffer name =>
    match s.item? name with
    | some (.buffer octets) => some octets
    | _ => none
  | .file name => s.file? name
  | .octets octets => some octets

def apply (s : Plain p) : Change p → Attempt Unit × Plain p
  | .create kind name x => (.ok (), s.set name (.container kind x.owned))
  | .createShared name x => (.ok (), s.set name (.shared x.owned))
  | .view name origin offset count =>
    (.ok (), match s.resolve origin with
      | some octets =>
        s.set name (.container .mapped (.mapped (.ofOctets octets offset count) true))
      | none => s)
  | .join kind name source => (.ok (), s.derive name source (Item.toContainer? kind))
  | .hold name source => (.ok (), s.derive name source Item.toShared?)
  | .observe name source => (.ok (), s.derive name source Item.toObserver?)
  | .edit name run => s.edit name run
  | .setPattern name pattern => (.ok (), s.set name (.pattern pattern))
  | .lend name octets => (.ok (), s.set name (.buffer octets))
  | .putFile name octets => (.ok (), s.putFile name octets)
  | .drop name => (.ok (), s.remove name)
  | .rename name target => (.ok (), s.rename name target)

def applyAll (s : Plain p) : List (Change p) → Attempt Unit × Plain p
  | [] => (.ok (), s)
  | change :: rest =>
    match s.apply change with
    | (.ok (), s) => s.applyAll rest
    | (.error failure, s) => (.error failure, s)

/-- Runs an action, which is decided on values and therefore means the same here. -/
def act (s : Plain p) (a : Action p) : Attempt (Answer p) × Plain p :=
  match a.plan s.reading with
  | .ok plan =>
    let (outcome, s) := s.applyAll plan.changes
    (outcome.map fun _ => plan.answer, s)
  | .error failure => (.error failure, s)

theorem act_of_ok {s : Plain p} {a : Action p} {plan : Plan p}
    (h : a.plan s.reading = .ok plan) : s.act a =
      ((s.applyAll plan.changes).1.map fun _ => plan.answer, (s.applyAll plan.changes).2) := by
  simp only [act, h]

theorem act_of_error {s : Plain p} {a : Action p} {failure : Failure}
    (h : a.plan s.reading = .error failure) : s.act a = (.error failure, s) := by
  simp only [act, h]

end Plain

/-- What a question about sharing checks: the containers it speaks of are there. -/
def Question.check (r : Reading p) : Question → Attempt Unit
  | isUnique kind of => do let _ ← r.container kind of
  | ownerCount kind of => do let _ ← r.container kind of
  | shares kind of other => do
    let _ ← r.container kind of
    let _ ← r.container kind other

/-- The steps of plain values. Values do not say who shares what: a question about sharing may get
any answer, as long as it fails where it has to, and an observer may be gone at any time, but as
long as it is not, it has what it was made of. -/
inductive Plain.Takes (s : Plain p) : Step p → Attempt (Answer p) → Plain p → Prop
  | act (a : Action p) : s.Takes (.act a) (s.act a).1 (s.act a).2
  | ask (q : Question) (answer : Attempt (Answer p))
      (checked : answer.map (fun _ => ()) = q.check s.reading) : s.Takes (.ask q) answer s
  | gone (of out : Name) (x : Payload p) (saw : s.item? of = some (.observer x)) :
      s.Takes (.upgrade of out) (.ok .absent) s
  | alive (of out : Name) (x : Payload p) (saw : s.item? of = some (.observer x)) :
      s.Takes (.upgrade of out) (.ok .done) (s.set out (.shared x))
  | unknown (of out : Name) (saw : ∀ x, s.item? of ≠ some (.observer x)) :
      s.Takes (.upgrade of out) (.error (.unknown of)) s

/-- The runs of plain values: what each step came to, and the values behind it. -/
inductive Plain.Runs : Plain p → List (Step p) → List (Attempt (Answer p) × Plain p) → Prop
  | nil (s : Plain p) : s.Runs [] []
  | cons {s t : Plain p} {step : Step p} {answer : Attempt (Answer p)} {rest : List (Step p)}
      {outs : List (Attempt (Answer p) × Plain p)} (first : s.Takes step answer t)
      (behind : t.Runs rest outs) : s.Runs (step :: rest) ((answer, t) :: outs)

end CowArrays
