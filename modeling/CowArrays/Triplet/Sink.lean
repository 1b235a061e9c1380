import CowArrays.Scalar.Octets

/-!
Sinks: where a text is written to. A sink accepts some octets of what it is offered, perhaps fewer
than all, or reports a fault. Text goes to a sink through a buffer, which is emptied when the next
chunk does not fit, at the end, and once more after a fault, whose success no longer matters. An
offer that is interrupted is made again, so only the reply that ends it counts. Behind the last
octets the sink itself is flushed.
-/

namespace CowArrays

/-- Reply to an offer of at least one octet. Accepting none of them is a fault, too. -/
inductive Reply
  | accepted (count : Nat)
  | failed (reason : String)
  deriving DecidableEq

namespace Reply

def count : Reply → Nat
  | accepted count => count
  | failed _ => 0

def fault : Reply → Option StreamFault
  | accepted 0 => some (.rejected "failed to write the buffered data")
  | accepted (_ + 1) => none
  | failed reason => some (.rejected reason)

theorem count_of_fault {reply : Reply} {fault : StreamFault} (h : reply.fault = some fault) :
    reply.count = 0 := by
  match reply with
  | accepted 0 | failed _ => rfl
  | accepted (_ + 1) => cases h

theorem count_pos {reply : Reply} (h : reply.fault = none) : 0 < reply.count := by
  match reply with
  | accepted 0 | failed _ => cases h
  | accepted (_ + 1) => exact Nat.succ_pos _

end Reply

structure Sink (σ : Type) where
  state : σ
  offer : σ → Octets → Reply × σ
  /-- Passes on what was accepted; a reason where that fails. -/
  flush : σ → Option String × σ

namespace Sink

variable {σ : Type}

/-- What became of a text: the octets that the sink accepted, in order, and its fault. -/
structure Delivery (σ : Type) where
  accepted : Octets
  sink : Sink σ
  fault : Option StreamFault

def Delivery.outcome (d : Delivery σ) : Attempt Octets :=
  match d.fault with
  | none => .ok d.accepted
  | some fault => .error (.stream fault)

/-- Offers octets until all are accepted or the sink fails, and returns what is left. The count of
steps is enough when it is the number of octets, because every accepted offer takes one. -/
def drain (sink : Sink σ) : (fuel : Nat) → Octets → Delivery σ × Octets
  | 0, pending => (⟨[], sink, none⟩, pending)
  | fuel + 1, pending =>
    if pending.isEmpty then (⟨[], sink, none⟩, pending)
    else
      let (reply, state) := sink.offer sink.state pending
      let sink := { sink with state }
      match reply.fault with
      | some fault => (⟨[], sink, some fault⟩, pending)
      | none =>
        let (rest, left) := drain sink fuel (pending.drop reply.count)
        ({ rest with accepted := pending.take reply.count ++ rest.accepted }, left)

/-- Empties a buffer and goes on, unless the sink fails. Then the buffer is emptied once more, and
the first fault stays. -/
def emptying (sink : Sink σ) (pending : Octets) (next : Sink σ → Delivery σ) : Delivery σ :=
  let (d, left) := sink.drain pending.length pending
  let more := match d.fault with
    | none => next d.sink
    | some fault => { (d.sink.drain left.length left).1 with fault := some fault }
  { more with accepted := d.accepted ++ more.accepted }

def flushed (sink : Sink σ) : Delivery σ :=
  let (failure, state) := sink.flush sink.state
  ⟨[], { sink with state }, failure.map .rejected⟩

def capacity : Nat := 8192

/-- Hands chunks to a sink through the buffer, which holds `pending`. -/
def deliverFrom (sink : Sink σ) (pending : Octets) : List Octets → Delivery σ
  | [] => sink.emptying pending flushed
  | chunk :: rest =>
    if pending.length + chunk.length ≤ capacity then sink.deliverFrom (pending ++ chunk) rest
    else sink.emptying pending fun sink => sink.deliverFrom chunk rest

def deliver (sink : Sink σ) (lines : List String) : Delivery σ :=
  sink.deliverFrom [] (lines.map fun l => l.toUTF8.toList)

def unbounded : Sink Unit where
  state := ()
  offer _ octets := (.accepted octets.length, ())
  flush _ := (none, ())

/-- A sink that has room for `room` octets, and fails when it is full. -/
def limited (room : Nat) : Sink Nat where
  state := room
  offer room octets :=
    if room = 0 then (.failed "writer full", room)
    else (.accepted (min room octets.length), room - octets.length)
  flush room := (none, room)

end Sink
end CowArrays
