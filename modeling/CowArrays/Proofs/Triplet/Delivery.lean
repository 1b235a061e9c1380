import CowArrays.Triplet.Sink

/-!
Deliveries to a sink. Wherever the buffer before the sink cuts the chunks and whatever the sink
makes of them, it gets them from the first octet on and in order, and only a sink that reports no
fault gets all of them. A log around the sink shows the same.
-/

namespace CowArrays.Sink

variable {σ : Type}

/-! ### One step -/

section

variable {sink : Sink σ} {n : Nat} {pending : Octets}

def behind (sink : Sink σ) (octets : Octets) : Sink σ :=
  { sink with state := (sink.offer sink.state octets).2 }

theorem drain_nil (sink : Sink σ) (n : Nat) : sink.drain n [] = (⟨[], sink, none⟩, []) := by
  cases n <;> rfl

theorem drain_of_fault (hne : pending ≠ []) {fault : StreamFault}
    (h : (sink.offer sink.state pending).1.fault = some fault) :
    sink.drain (n + 1) pending = (⟨[], sink.behind pending, some fault⟩, pending) := by
  rw [drain, if_neg (mt List.isEmpty_iff.1 hne)]
  simp only [h]
  rfl

theorem drain_of_accepted (hne : pending ≠ []) {reply : Reply}
    (hreply : (sink.offer sink.state pending).1 = reply) (h : reply.fault = none) :
    sink.drain (n + 1) pending =
      let rest := (sink.behind pending).drain n (pending.drop reply.count)
      ({ rest.1 with accepted := pending.take reply.count ++ rest.1.accepted }, rest.2) := by
  subst hreply
  rw [drain, if_neg (mt List.isEmpty_iff.1 hne)]
  simp only [h]
  rfl

variable {next : Sink σ → Delivery σ} {d : Delivery σ} {left : Octets}

theorem emptying_of_fault (hd : sink.drain pending.length pending = (d, left)) {fault : StreamFault}
    (h : d.fault = some fault) : sink.emptying pending next =
      ⟨d.accepted ++ (d.sink.drain left.length left).1.accepted,
        (d.sink.drain left.length left).1.sink, some fault⟩ := by
  simp only [emptying, hd, h]

theorem emptying_of_none (hd : sink.drain pending.length pending = (d, left))
    (h : d.fault = none) : sink.emptying pending next =
      { next d.sink with accepted := d.accepted ++ (next d.sink).accepted } := by
  simp only [emptying, hd, h]

end

/-! ### Accounts of the octets -/

/-- Draining divides what is pending into what was accepted and what is left, which is nothing
unless the sink failed. -/
theorem drain_accounts (sink : Sink σ) {n : Nat} {pending : Octets} (hn : pending.length ≤ n) :
    (sink.drain n pending).1.accepted ++ (sink.drain n pending).2 = pending ∧
      ((sink.drain n pending).1.fault = none → (sink.drain n pending).2 = []) := by
  induction n generalizing sink pending with
  | zero =>
    obtain rfl := List.eq_nil_of_length_eq_zero (Nat.le_zero.1 hn)
    exact ⟨rfl, fun _ => rfl⟩
  | succ n ih =>
    by_cases hne : pending = []
    · rw [hne, drain_nil]
      exact ⟨rfl, fun _ => rfl⟩
    cases hfault : (sink.offer sink.state pending).1.fault with
    | some fault =>
      rw [drain_of_fault hne hfault]
      exact ⟨rfl, nofun⟩
    | none =>
      -- an accepted offer takes an octet, so the steps that are left are enough for the rest
      have hcount := Reply.count_pos hfault
      have hrest : (pending.drop (sink.offer sink.state pending).1.count).length ≤ n := by
        rw [List.length_drop]
        omega
      obtain ⟨hdivided, hleft⟩ := ih (sink.behind pending) hrest
      rw [drain_of_accepted hne rfl hfault]
      refine ⟨?_, hleft⟩
      rw [List.append_assoc, hdivided, List.take_append_drop]

/-- Whether what was accepted begins a text, and is all of it unless the sink failed. -/
def Delivery.Begins (d : Delivery σ) (text : Octets) : Prop :=
  d.accepted <+: text ∧ (d.fault = none → d.accepted = text)

theorem emptying_begins {sink : Sink σ} {pending text : Octets} {next : Sink σ → Delivery σ}
    (h : ∀ sink, (next sink).Begins text) :
    (sink.emptying pending next).Begins (pending ++ text) := by
  obtain ⟨hdivided, hleft⟩ := sink.drain_accounts (Nat.le_refl pending.length)
  rcases hd : sink.drain pending.length pending with ⟨d, left⟩
  rw [hd] at hdivided hleft
  cases hfault : d.fault with
  | some fault =>
    -- what is left is offered once more, and may be accepted in part
    have hagain := (d.sink.drain_accounts (Nat.le_refl left.length)).1
    rw [emptying_of_fault hd hfault]
    refine ⟨⟨(d.sink.drain left.length left).2 ++ text, ?_⟩, nofun⟩
    calc d.accepted ++ (d.sink.drain left.length left).1.accepted ++
          ((d.sink.drain left.length left).2 ++ text)
        = d.accepted ++ ((d.sink.drain left.length left).1.accepted ++
          (d.sink.drain left.length left).2) ++ text := by simp only [List.append_assoc]
      _ = pending ++ text := by rw [hagain, hdivided]
  | none =>
    obtain ⟨hbegins, hwhole⟩ := h d.sink
    have hall : d.accepted = pending := by rw [← hdivided, hleft hfault, List.append_nil]
    rw [emptying_of_none hd hfault, hall]
    exact ⟨(List.prefix_append_right_inj _).2 hbegins, fun hnone => congrArg _ (hwhole hnone)⟩

theorem deliverFrom_begins (sink : Sink σ) (pending : Octets) (chunks : List Octets) :
    (sink.deliverFrom pending chunks).Begins (pending ++ chunks.flatten) := by
  induction chunks generalizing sink pending with
  | nil => exact emptying_begins fun sink => ⟨List.prefix_refl _, fun _ => rfl⟩
  | cons chunk chunks ih =>
    rw [deliverFrom, List.flatten_cons]
    -- the chunk joins what is pending, or follows it
    split
    · rw [← List.append_assoc]
      exact ih sink (pending ++ chunk)
    · exact emptying_begins fun sink => ih sink chunk

/-! ### Logs -/

inductive Event
  | offered (octets : Octets) (reply : Reply)
  | flushed (failure : Option String)

namespace Event

def accepted : Event → Octets
  | offered octets reply => octets.take reply.count
  | flushed _ => []

def fault : Event → Option StreamFault
  | offered _ reply => reply.fault
  | flushed failure => failure.map .rejected

end Event

/-- A sink around a sink, with a log of the requests, which has some events already. -/
def logged (sink : Sink σ) (log : List Event) : Sink (σ × List Event) where
  state := (sink.state, log)
  offer s octets :=
    let (reply, state) := sink.offer s.1 octets
    (reply, state, s.2 ++ [.offered octets reply])
  flush s :=
    let (failure, state) := sink.flush s.1
    (failure, state, s.2 ++ [.flushed failure])

/-- A delivery to a sink as one to the sink with a log around it. -/
def Delivery.logged (d : Delivery σ) (log : List Event) : Delivery (σ × List Event) :=
  ⟨d.accepted, d.sink.logged log, d.fault⟩

/-- Whether events explain a delivery: the octets that were accepted, and the first fault. -/
structure Delivery.Explained (d : Delivery σ) (events : List Event) : Prop where
  accepted : events.flatMap Event.accepted = d.accepted
  fault : events.findSome? Event.fault = d.fault

theorem drain_logged (sink : Sink σ) (log : List Event) (n : Nat) (pending : Octets) :
    ∃ events, (sink.logged log).drain n pending =
        ((sink.drain n pending).1.logged (log ++ events), (sink.drain n pending).2) ∧
      (sink.drain n pending).1.Explained events := by
  induction n generalizing sink log pending with
  | zero => exact ⟨[], by rw [List.append_nil]; rfl, rfl, rfl⟩
  | succ n ih =>
    by_cases hne : pending = []
    · rw [hne, drain_nil, drain_nil]
      exact ⟨[], by rw [List.append_nil]; rfl, rfl, rfl⟩
    let event : Event := .offered pending (sink.offer sink.state pending).1
    have hbehind : (sink.logged log).behind pending =
      (sink.behind pending).logged (log ++ [event]) := rfl
    cases hfault : (sink.offer sink.state pending).1.fault with
    | some fault =>
      have hlogged : ((sink.logged log).offer (sink.logged log).state pending).1.fault =
        some fault := hfault
      rw [drain_of_fault hne hfault, drain_of_fault hne hlogged, hbehind]
      refine ⟨[event], rfl, ?_, ?_⟩
      · simp [event, Event.accepted, Reply.count_of_fault hfault]
      · simp [event, Event.fault, hfault]
    | none =>
      have hreply : ((sink.logged log).offer (sink.logged log).state pending).1 =
        (sink.offer sink.state pending).1 := rfl
      rw [drain_of_accepted hne rfl hfault, drain_of_accepted hne hreply hfault, hbehind]
      obtain ⟨events, hdrain, haccepted, hfirst⟩ := ih (sink.behind pending) (log ++ [event])
        (pending.drop (sink.offer sink.state pending).1.count)
      rw [hdrain]
      refine ⟨event :: events, ?_, ?_, ?_⟩
      · simp only [Delivery.logged, List.append_assoc, List.singleton_append]
      · rw [List.flatMap_cons, haccepted]
        rfl
      · rw [List.findSome?_cons, ← hfirst]
        simp only [event, Event.fault, hfault]

/-- Whether a delivery to a sink with a log is one to the sink, and events that it adds to the log
explain it. Behind one that succeeds the sink was flushed. -/
structure Delivery.Logs (log events : List Event) (d' : Delivery (σ × List Event))
    (d : Delivery σ) : Prop where
  eq : d' = d.logged (log ++ events)
  explained : d.Explained events
  flushed : d.fault = none → events.getLast? = some (.flushed none)

theorem emptying_logs {sink : Sink σ} {log : List Event} {pending : Octets}
    {next : Sink σ → Delivery σ} {next' : Sink (σ × List Event) → Delivery (σ × List Event)}
    (h : ∀ sink log, ∃ events, (next' (sink.logged log)).Logs log events (next sink)) :
    ∃ events, ((sink.logged log).emptying pending next').Logs log events
      (sink.emptying pending next) := by
  obtain ⟨events, hdrain, haccepted, hfirst⟩ := sink.drain_logged log pending.length pending
  rcases hd : sink.drain pending.length pending with ⟨d, left⟩
  rw [hd] at hdrain haccepted hfirst
  cases hfault : d.fault with
  | some fault =>
    -- whatever comes of the second attempt, the fault of the first one is found first
    obtain ⟨events', hagain, haccepted', -⟩ :=
      d.sink.drain_logged (log ++ events) left.length left
    have hfault' : (d.logged (log ++ events)).fault = some fault := hfault
    rw [emptying_of_fault hd hfault, emptying_of_fault hdrain hfault']
    refine ⟨events ++ events', ?_, ⟨?_, ?_⟩, nofun⟩
    · simp only [Delivery.logged, hagain, List.append_assoc]
    · rw [List.flatMap_append, haccepted, haccepted']
    · rw [List.findSome?_append, hfirst, hfault]
      rfl
  | none =>
    obtain ⟨events', hnext, ⟨haccepted', hfirst'⟩, hlast⟩ := h d.sink (log ++ events)
    have hfault' : (d.logged (log ++ events)).fault = none := hfault
    rw [emptying_of_none hd hfault, emptying_of_none hdrain hfault']
    refine ⟨events ++ events', ?_, ⟨?_, ?_⟩, fun hnone => ?_⟩
    · simp only [Delivery.logged, hnext, List.append_assoc]
    · rw [List.flatMap_append, haccepted, haccepted']
    · rw [List.findSome?_append, hfirst, hfault]
      exact hfirst'
    · rw [List.getLast?_append, hlast hnone]
      rfl

/-- A log changes nothing, and explains every delivery. -/
theorem deliverFrom_logs (sink : Sink σ) (log : List Event) (pending : Octets)
    (chunks : List Octets) : ∃ events, ((sink.logged log).deliverFrom pending chunks).Logs log
      events (sink.deliverFrom pending chunks) := by
  induction chunks generalizing sink log pending with
  | nil =>
    refine emptying_logs fun sink log =>
      ⟨[.flushed (sink.flush sink.state).1], rfl, ⟨rfl, ?_⟩, fun hnone => ?_⟩
    · simp [Event.fault, flushed]
    · rw [List.getLast?_singleton, Option.map_eq_none_iff.1 hnone]
  | cons chunk chunks ih =>
    rw [deliverFrom, deliverFrom]
    split
    · exact ih sink log (pending ++ chunk)
    · exact emptying_logs fun sink log => ih sink log chunk

/-- What chunks come to that are handed to a sink, as the log of the sink has it. -/
structure Conveys (sink : Sink σ) (chunks : List Octets) (log : List Event) : Prop where
  /-- Without the log the same happens. -/
  logged : (sink.logged []).deliverFrom [] chunks = (sink.deliverFrom [] chunks).logged log
  /-- The sink takes octets of the text from the first one on, none of them twice and none out of
  order. -/
  begins : log.flatMap Event.accepted <+: chunks.flatten
  /-- The first fault that it reports is the outcome. -/
  failed : ∀ fault, log.findSome? Event.fault = some fault →
    (sink.deliverFrom [] chunks).outcome = .error (.stream fault)
  /-- If it reports none, it has taken everything and was flushed. -/
  succeeded : log.findSome? Event.fault = none →
    (sink.deliverFrom [] chunks).outcome = .ok chunks.flatten ∧
      log.flatMap Event.accepted = chunks.flatten ∧ log.getLast? = some (.flushed none)

theorem exists_conveys (sink : Sink σ) (chunks : List Octets) :
    ∃ log, sink.Conveys chunks log := by
  obtain ⟨hbegins, hwhole⟩ := sink.deliverFrom_begins [] chunks
  obtain ⟨log, heq, ⟨haccepted, hfirst⟩, hflushed⟩ := sink.deliverFrom_logs [] [] chunks
  refine ⟨log, heq, haccepted ▸ hbegins, fun fault hfault => ?_, fun hnone => ?_⟩
  · rw [Delivery.outcome, ← hfirst, hfault]
  · rw [hfirst] at hnone
    rw [Delivery.outcome, hnone, haccepted]
    exact ⟨congrArg Except.ok (hwhole hnone), hwhole hnone, hflushed hnone⟩

example : ((limited 2).deliverFrom [] [[1], [2, 3]]).accepted = [1, 2] ∧
    ((limited 2).deliverFrom [] [[1], [2, 3]]).fault = some (.rejected "writer full") := by
  decide

/-! ### Sinks without faults -/

/-- Whether a sink accepts something of all that it is offered, in whatever state, and is always
flushed. -/
structure Reliable (sink : Sink σ) : Prop where
  offer : ∀ s octets, octets ≠ [] → (sink.offer s octets).1.fault = none
  flush : ∀ s, (sink.flush s).1 = none

theorem Reliable.drain {sink : Sink σ} (h : sink.Reliable) (n : Nat) (pending : Octets) :
    (sink.drain n pending).1.fault = none ∧ (sink.drain n pending).1.sink.Reliable := by
  induction n generalizing sink pending with
  | zero => exact ⟨rfl, h⟩
  | succ n ih =>
    by_cases hne : pending = []
    · rw [hne, drain_nil]
      exact ⟨rfl, h⟩
    · have hbehind : (sink.behind pending).Reliable := ⟨h.offer, h.flush⟩
      rw [drain_of_accepted hne rfl (h.offer _ _ hne)]
      exact ih hbehind _

theorem Reliable.deliverFrom {sink : Sink σ} (h : sink.Reliable) (pending : Octets)
    (chunks : List Octets) : (sink.deliverFrom pending chunks).fault = none := by
  induction chunks generalizing sink pending with
  | nil =>
    obtain ⟨hnone, hrest⟩ := h.drain pending.length pending
    rw [Sink.deliverFrom, emptying_of_none rfl hnone]
    exact congrArg (Option.map _) (hrest.flush _)
  | cons chunk chunks ih =>
    rw [Sink.deliverFrom]
    split
    · exact ih h (pending ++ chunk)
    · obtain ⟨hnone, hrest⟩ := h.drain pending.length pending
      rw [emptying_of_none rfl hnone]
      exact ih hrest chunk

theorem Reliable.deliver {sink : Sink σ} (h : sink.Reliable) (lines : List String) :
    (sink.deliver lines).outcome = .ok (lines.map fun l => l.toUTF8.toList).flatten := by
  have hnone := h.deliverFrom [] (lines.map fun l => l.toUTF8.toList)
  rw [Sink.deliver, Delivery.outcome, hnone]
  exact congrArg Except.ok ((sink.deliverFrom_begins [] _).2 hnone)

theorem reliable_unbounded : unbounded.Reliable where
  offer _ octets hne := by
    obtain ⟨b, rest, rfl⟩ := List.exists_cons_of_ne_nil hne
    rfl
  flush _ := rfl

end CowArrays.Sink
