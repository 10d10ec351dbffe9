import Amqp.Proofs.Channel.Turns

/-!
# How messages come to their handlers

The handlers that have started in a run and those that wait are, in this order, those of the
messages that the channel has taken in, and those that wait start next, one with each turn. A
handler that fails is reported, and that is all: without its failures a run goes through the same
states, and whatever else happens in it does the same. A channel that is closed takes in no more,
but it does not send away what waits: after an abort the handlers that were waiting start, one with
each turn, and no others.
-/

namespace Amqp.Channel

/-! ## Runs and what happens in them -/

/-- The event is the failure of a handler. -/
def Event.isFailure : Event → Bool
  | .handlerFailed .. => true
  | _ => false

/-- The handlers of the messages that are taken in: each message is the next delivery. -/
def turnsOf (arrivals : List Arrival) : List Turn := arrivals.mapIdx fun d a => ⟨d, a.consumer⟩

namespace Machine

/-- The messages that the channel takes in with events. -/
def arrivalsFrom (m : Machine) : List Event → List Arrival
  | [] => []
  | e :: events => m.takes e ++ arrivalsFrom (m.step e).1 events

/-- The events, each with what the channel does then. -/
def traceFrom (m : Machine) : List Event → List (Event × List Effect)
  | [] => []
  | e :: events => (e, (m.step e).2) :: traceFrom (m.step e).1 events

end Machine

/-- What a channel does in a run. -/
def emitted (id : String) (events : List Event) : List Effect := ((opened id).run events).2

/-- The messages that a channel takes in during a run. -/
def arrivals (id : String) (events : List Event) : List Arrival := (opened id).arrivalsFrom events

/-- The events of a run, each with what the channel does then. -/
def trace (id : String) (events : List Event) : List (Event × List Effect) :=
  (opened id).traceFrom events

theorem turnsOf_append (as bs : List Arrival) :
    turnsOf (as ++ bs) = turnsOf as ++ bs.mapIdx fun d a => ⟨d + as.length, a.consumer⟩ :=
  List.mapIdx_append ..

/-- The handlers of different messages are those of different deliveries. -/
theorem deliveries_turnsOf (as : List Arrival) :
    (turnsOf as).map (·.delivery) = List.range as.length := by
  refine List.ext_getElem (by simp [turnsOf]) fun d hd _ => ?_
  simp [turnsOf]

namespace Machine

variable {m : Machine} {e : Event} {events : List Event}

/-! ## Runs -/

theorem arrivalsFrom_append (m : Machine) (events more : List Event) :
    m.arrivalsFrom (events ++ more) =
      m.arrivalsFrom events ++ (m.run events).1.arrivalsFrom more := by
  induction events generalizing m with
  | nil => rfl
  | cons e events ih =>
    rw [List.cons_append, arrivalsFrom, ih, arrivalsFrom, List.append_assoc]
    rfl

theorem startsOf_run_cons (m : Machine) (e : Event) (events : List Event) :
    startsOf (m.run (e :: events)).2 =
      m.turns.take (turnsIn [e]) ++ startsOf ((m.step e).1.run events).2 := by
  rw [← startsOf_step]
  exact startsOf_append ..

/-- The handlers that wait are the next ones to start, one with each turn. -/
theorem take_starts_run (m : Machine) (events : List Event) :
    (startsOf (m.run events).2).take m.turns.length = m.turns.take (turnsIn events) := by
  induction events generalizing m with
  | nil =>
    rw [turnsIn, List.countP_nil, List.take_zero]
    exact List.take_nil
  | cons e events ih =>
    have hlength : m.turns.length - (m.turns.take (turnsIn [e])).length =
        (m.turns.drop (turnsIn [e])).length := by
      rw [List.length_take, List.length_drop]
      omega
    have hnext := ih (m.step e).1
    rw [turns_step_eq] at hnext
    -- of what starts later, as much as waits already is what waits already
    have hrest : (startsOf ((m.step e).1.run events).2).take (m.turns.drop (turnsIn [e])).length =
        (m.turns.drop (turnsIn [e])).take (turnsIn events) := by
      have hless := congrArg (List.take (m.turns.drop (turnsIn [e])).length) hnext
      rwa [List.take_take, List.length_append, Nat.min_eq_left (Nat.le_add_right _ _),
        List.take_take, Nat.min_comm, ← List.take_take, List.take_left] at hless
    have hfirst : (m.turns.take (turnsIn [e])).take m.turns.length =
        m.turns.take (turnsIn [e]) :=
      List.take_of_length_le (List.length_take_le' ..)
    rw [startsOf_run_cons, List.take_append, hlength, hrest, hfirst, turnsIn_cons e events,
      List.take_add]

/-- A closed channel starts what waits, one handler with each turn, and nothing else. -/
theorem starts_run_of_closed (h : m.channel.isOpen = false) (events : List Event) :
    startsOf (m.run events).2 = m.turns.take (turnsIn events) := by
  induction events generalizing m with
  | nil => exact List.take_zero.symm
  | cons e events ih =>
    have hclosed : (m.step e).1.channel.isOpen = false := isOpen_run_of_closed h [e]
    rw [startsOf_run_cons, ih hclosed, turns_step_eq, takes_of_closed h, List.map_nil,
      List.append_nil, turnsIn_cons e events, List.take_add]

/-! ## Failures -/

theorem step_of_isFailure (h : e.isFailure = true) (m : Machine) : (m.step e).1 = m := by
  cases e with
  | handlerFailed d thrown =>
    simp only [step]
    split <;> rfl
  | _ => cases h

/-- Without its failures, a run goes to the same state. -/
theorem run_filter_fst (m : Machine) (events : List Event) :
    (m.run (events.filter (!·.isFailure))).1 = (m.run events).1 := by
  induction events generalizing m with
  | nil => rfl
  | cons e events ih =>
    rw [run_cons_fst, ← ih]
    cases he : e.isFailure with
    | false => rw [List.filter_cons_of_pos (by simp [he]), run_cons_fst]
    | true => rw [List.filter_cons_of_neg (by simp [he]), step_of_isFailure he]

/-- Without the failures of a run, all other events do the same. -/
theorem traceFrom_filter (m : Machine) (events : List Event) :
    m.traceFrom (events.filter (!·.isFailure)) =
      (m.traceFrom events).filter (!·.1.isFailure) := by
  induction events generalizing m with
  | nil => rfl
  | cons e events ih =>
    rw [traceFrom]
    cases he : e.isFailure with
    | false =>
      rw [List.filter_cons_of_pos (by simp [he]), List.filter_cons_of_pos (by simp [he]), traceFrom,
        ih]
    | true =>
      rw [List.filter_cons_of_neg (by simp [he]), List.filter_cons_of_neg (by simp [he]), ih,
        step_of_isFailure he]

end Machine

variable {id : String} {events : List Event} {d : Nat} {a : Arrival}

/-! ## From the opening on -/

theorem emitted_concat (id : String) (events : List Event) (e : Event) :
    emitted id (events ++ [e]) = emitted id events ++ ((reached id events).step e).2 := by
  rw [emitted, Machine.run_append, emitted, reached]
  simp only [Machine.run, List.append_nil]

theorem arrivals_concat (id : String) (events : List Event) (e : Event) :
    arrivals id (events ++ [e]) = arrivals id events ++ (reached id events).takes e := by
  rw [arrivals, Machine.arrivalsFrom_append, arrivals, reached]
  simp only [Machine.arrivalsFrom, List.append_nil]

/-- The deliveries of a channel are the messages it has taken in. -/
theorem labels_reached (id : String) (events : List Event) :
    (reached id events).channel.labels = (arrivals id events).map Arrival.label := by
  induction events using List.reverseRecOn with
  | nil => rfl
  | append_singleton events e ih =>
    rw [reached_concat, Machine.labels_step_eq, ih, arrivals_concat, List.map_append]

theorem length_deliveries (id : String) (events : List Event) :
    (reached id events).channel.deliveries.length = (arrivals id events).length := by
  have hlabels := congrArg List.length (labels_reached id events)
  rwa [labels, List.length_map, List.length_map] at hlabels

/-- The handlers that have started and those that wait are those of the messages taken in. -/
theorem starts_append_turns (id : String) (events : List Event) :
    startsOf (emitted id events) ++ (reached id events).turns = turnsOf (arrivals id events) := by
  induction events using List.reverseRecOn with
  | nil => rfl
  | append_singleton events e ih =>
    rw [emitted_concat, reached_concat, startsOf_append, Machine.startsOf_step,
      Machine.turns_step_eq, List.append_assoc, ← List.append_assoc (List.take ..),
      List.take_append_drop, ← List.append_assoc, ih, arrivals_concat, turnsOf_append,
      length_deliveries]
    rcases Machine.takes_cases (reached id events) e with h | ⟨a, h⟩
    · rw [h]
      rfl
    · simp only [h, List.map_cons, List.map_nil, List.mapIdx_cons, List.mapIdx_nil, Nat.zero_add]

/-- A delivery is the message that was taken in at its place. -/
theorem message_of_arrivals (ha : (arrivals id events)[d]? = some a) :
    ∃ delivery, (reached id events).channel.deliveries[d]? = some delivery ∧
      delivery.message = a.message := by
  have hlabel : (reached id events).channel.labels[d]? = some a.label := by
    rw [labels_reached, List.getElem?_map, ha, Option.map_some]
  rw [labels, List.getElem?_map, Option.map_eq_some_iff] at hlabel
  obtain ⟨delivery, hdelivery, hlabel⟩ := hlabel
  exact ⟨delivery, hdelivery, congrArg Prod.fst hlabel⟩

/-- How a channel has handed over the messages of a run, and goes on to do so. -/
structure Dispatched (id : String) (events : List Event) : Prop where
  /-- The handlers that have started are those of the first messages taken in, and the handlers of
  the others wait, all in the order of the messages. -/
  ordered : startsOf (emitted id events) ++ (reached id events).turns = turnsOf (arrivals id events)
  /-- No message has come to its handler twice. -/
  once : ((startsOf (emitted id events)).map (·.delivery)).Nodup
  /-- The handlers that wait start next, one with each turn, whatever else happens. -/
  due : ∀ more, (startsOf ((reached id events).run more).2).take (reached id events).turns.length =
    (reached id events).turns.take (turnsIn more)
  /-- A message that has to be acknowledged is on the ledger as soon as it arrives, while its
  handler waits. -/
  tracked : (reached id events).channel.isOpen = true → ∀ consumer message,
    (∃ tag, (tag = message.tag ∨ tag.same message.tag = true) ∧ (tag, (arrivals id events).length) ∈
      (reached id (events ++ [.arrived consumer .manual message])).channel.pending) ∧
    ⟨(arrivals id events).length, consumer⟩ ∈
      (reached id (events ++ [.arrived consumer .manual message])).turns ∧
    ⟨(arrivals id events).length, consumer⟩ ∉
      startsOf (emitted id (events ++ [.arrived consumer .manual message]))
  /-- A handler that fails is reported once, with what it throws. -/
  reported : ∀ d a key tag thrown, (arrivals id events)[d]? = some a →
    quoteValue a.message.routingKey = .ok key → a.message.tag.text = .ok tag →
    ((reached id events).step (.handlerFailed d thrown)).2 =
      [.log ⟨.error, [.text (mark ++ "Delivery handler failed for " ++ key ++ " (tag " ++ tag ++
        "):"), thrown]⟩]
  /-- Without the failures of handlers, the channel comes to the same state. -/
  unmoved : reached id (events.filter (!·.isFailure)) = reached id events
  /-- Without them, whatever else happens does the same: the same handlers start on the same
  messages, in the same order. -/
  unseen : trace id (events.filter (!·.isFailure)) = (trace id events).filter (!·.1.isFailure)

/-- **Dispatch.** In every run, whatever consumers there are and whatever their handlers do,
messages come to their handlers once each and in order, and the failures of handlers are reported
and make no other difference. -/
theorem dispatched (id : String) (events : List Event) : Dispatched id events where
  ordered := starts_append_turns id events
  once := by
    have hdeliveries := congrArg (List.map (·.delivery)) (starts_append_turns id events)
    rw [deliveries_turnsOf, List.map_append] at hdeliveries
    have hnodup : (List.range (arrivals id events).length).Nodup := List.nodup_range
    rw [← hdeliveries] at hnodup
    exact hnodup.of_append_left
  due := Machine.take_starts_run _
  tracked := by
    intro hopen consumer message
    have hstep := Machine.step_arrived_of_open hopen consumer .manual message
    rw [← length_deliveries, emitted_concat, reached_concat, hstep, List.append_nil]
    refine ⟨TagMap.exists_mem_track .., List.mem_append_right _ (List.mem_singleton_self _), ?_⟩
    intro hstarted
    have hturn : (⟨(reached id events).channel.deliveries.length, consumer⟩ : Turn) ∈
        turnsOf (arrivals id events) :=
      starts_append_turns id events ▸ List.mem_append_left _ hstarted
    have hdelivery := List.mem_map_of_mem (f := (·.delivery)) hturn
    rw [deliveries_turnsOf, List.mem_range, length_deliveries] at hdelivery
    exact Nat.lt_irrefl _ hdelivery
  reported := by
    intro d a key tag thrown ha hkey htag
    obtain ⟨delivery, hdelivery, hmessage⟩ := message_of_arrivals ha
    simp only [Machine.step, hdelivery, hmessage, handlerEntries, hkey, htag]
    rfl
  unmoved := Machine.run_filter_fst _ events
  unseen := Machine.traceFrom_filter _ events

/-! ## Aborts -/

/-- After an abort, the handlers that were waiting start, one with each turn, and no others; so none
starts exactly if none was waiting. -/
theorem starts_after_abort (id : String) (u : List Event) (call : Nat) (params : Value) :
    (∀ v, startsOf ((reached id (u ++ [.issue call (.abort params)])).run v).2 =
      (reached id u).turns.take (turnsIn v)) ∧
    ((∀ v, startsOf ((reached id (u ++ [.issue call (.abort params)])).run v).2 = []) ↔
      (reached id u).turns = []) := by
  have hclosed : ((reached id u).step (.issue call (.abort params))).1.channel.isOpen = false := rfl
  have hturns : ((reached id u).step (.issue call (.abort params))).1.turns =
      (reached id u).turns := rfl
  have hstarts (v : List Event) :
      startsOf ((reached id (u ++ [.issue call (.abort params)])).run v).2 =
        (reached id u).turns.take (turnsIn v) := by
    rw [reached_concat, Machine.starts_run_of_closed hclosed, hturns]
  refine ⟨hstarts, fun hnone => ?_, fun hnone v => by rw [hstarts, hnone, List.take_nil]⟩
  have hfirst := hnone [.turn]
  rw [hstarts] at hfirst
  cases hwaiting : (reached id u).turns with
  | nil => rfl
  | cons t rest =>
    rw [hwaiting] at hfirst
    cases hfirst

/-- Two messages arrive, and the handler of the first one aborts the channel. -/
def abortedInside : List Event :=
  [.arrived 0 .manual (messageOf 1), .arrived 0 .manual (messageOf 2), .turn,
    .issue 0 (.abort .undefined)]

/-- The handler of the second message starts all the same. -/
theorem exists_start_after_abort :
    ¬∀ u call params v,
      startsOf ((reached "c" (u ++ [.issue call (.abort params)])).run v).2 = [] := by
  intro h
  have hstarts : startsOf ((reached "c" abortedInside).run [.turn]).2 = [⟨1, 0⟩] := rfl
  have hnone : startsOf ((reached "c" abortedInside).run [.turn]).2 = [] :=
    h [.arrived 0 .manual (messageOf 1), .arrived 0 .manual (messageOf 2), .turn] 0 .undefined
      [.turn]
  rw [hstarts] at hnone
  cases hnone

end Amqp.Channel
