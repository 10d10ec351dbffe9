import Amqp.Proofs.Broker.Tallies
import Amqp.Proofs.Session.Links

/-!
# Channels over a broker

A hub is a broker with the channels that were opened over it. What a channel asks for the broker
carries out at once, and what the broker hands out or reports the channels hear at once. What a
primitive comes to waits until its channel hears of it, so that other things may happen in between:
channels hear of their answers, handlers start, and callers and handlers ask for more, in any order.

A channel is opened in two steps. The broker makes its end when someone asks for it; the channel,
which listens for the end of the broker's end, is there only once whoever asked hears of the answer.
What the broker reports in between nobody hears.
-/

namespace Amqp

namespace Hub

/-- A channel over a broker. -/
structure Line where
  machine : Channel.Machine
  /-- What primitives came to, by call, as far as the channel has not heard of it. -/
  outcomes : List (Nat × Channel.Outcome) := []
  deriving Repr, Inhabited

namespace Line

/-- Something happens to the channel. -/
def tell (l : Line) (e : Channel.Event) : Line := { l with machine := (l.machine.step e).1 }

/-- What the call's primitive came to waits for the channel. -/
def await (l : Line) (call : Nat) (o : Channel.Outcome) : Line :=
  { l with outcomes := l.outcomes ++ [(call, o)] }

/-- The channel hears what the call's primitive came to. -/
def answer (l : Line) (call : Nat) : Line :=
  match l.outcomes.find? (·.1 == call) with
  | some (_, o) =>
    { machine := (l.machine.step (.answered call o)).1
      outcomes := l.outcomes.filter (·.1 != call) }
  | none => l

end Line

end Hub

/-- A broker with the channels that were opened over it. -/
structure Hub where
  broker : Broker := {}
  /-- The channels that are there, under the numbers that the broker knows them by. -/
  lines : List Hub.Line := []
  /-- What the attempts to open a channel came to that nobody has heard of, in order. -/
  openings : List Channel.Outcome := []
  /-- The consumers that the channels were asked for, in order. -/
  subscriptions : List Subscription := []
  deriving Repr, Inhabited

namespace Hub

/-- What happens to a hub. -/
inductive Event where
  /-- Someone asks for a channel, and the broker makes its end of one. -/
  | opening
  /-- Whoever has waited longest for a channel hears what came of it. -/
  | opened
  /-- A caller or a handler asks something of a channel, under a number of its own. -/
  | issue (channel call : Nat) (request : Channel.Request)
  /-- A channel hears what the call's primitive came to. -/
  | answered (channel call : Nat)
  /-- The delivery of a decided settlement hears of it. -/
  | heard (channel call : Nat)
  /-- The next handler of a channel starts. -/
  | turn (channel : Nat)
  /-- The handler of a delivery fails. -/
  | handlerFailed (channel delivery : Nat) (thrown : Value)
  /-- The broker serves the next scheduled queue. -/
  | serve
  /-- The connection of all channels drops. -/
  | disconnect (error : Value)
  /-- The next attempt to open a channel is to fail. -/
  | refuseNext (error : Value)
  deriving Repr, Inhabited

namespace Event

/-- The number under which an event issues a request. -/
def issued? : Event → Option Nat
  | issue _ call _ => some call
  | _ => none

/-- The consumer that a request asks for. -/
def subscription? : Event → Option Subscription
  | issue _ call (.consume queue options) => some ⟨call, queue, Channel.ackModeOf options⟩
  | _ => none

end Event

/-- The hub with one of its channels changed. -/
def modifyLine (h : Hub) (ch : Nat) (f : Line → Line) : Hub :=
  { h with lines := h.lines.modify ch f }

/-- The consumer that a call asked for. -/
def subscription? (h : Hub) (call : Nat) : Option Subscription :=
  h.subscriptions.find? (·.call == call)

/-- How the consumer that a call asked for acknowledges. -/
def mode? (h : Hub) (call : Nat) : Option AckMode := (h.subscription? call).map (·.mode)

/-! ## What the broker does, and what channels hear -/

/-- What the broker is asked for with an effect of a channel. -/
def passed? (ch : Nat) : Channel.Effect → Option Broker.Event
  | .ask call p => some (.request ch call p)
  | _ => none

/-- What the broker is asked for with an event. A request of a channel asks once at most. -/
def forwarded? (h : Hub) : Event → Option Broker.Event
  | .opening => some .openChannel
  | .issue ch call r => do
    let l ← h.lines[ch]?
    (l.machine.step (.issue call r)).2.findSome? (passed? ch)
  | .serve => some .serve
  | .disconnect error => some (.disconnect error)
  | .refuseNext error => some (.refuseNext error)
  | _ => none

/-- What comes of an event at the broker. -/
def response (h : Hub) (e : Event) : Broker.Response :=
  match h.forwarded? e with
  | some f => h.broker.step f
  | none => { broker := h.broker }

/-- What callers, handlers and calls in flight do to channels with an event. -/
def started (h : Hub) (e : Event) : Hub :=
  let h := { h with subscriptions := h.subscriptions ++ e.subscription?.toList }
  match e with
  | .issue ch call r => h.modifyLine ch (·.tell (.issue call r))
  | .answered ch call => h.modifyLine ch (·.answer call)
  | .heard ch call => h.modifyLine ch (·.tell (.heard call))
  | .turn ch => h.modifyLine ch (·.tell .turn)
  | .handlerFailed ch d thrown => h.modifyLine ch (·.tell (.handlerFailed d thrown))
  | _ => h

/-- A channel hears what the broker tells. -/
def hear (h : Hub) : Broker.Effect → Hub
  | .deliver ch number m =>
    match h.mode? number with
    | some mode => h.modifyLine ch (·.tell (.arrived number mode m))
    | none => h
  | .cancelled ch number tag =>
    match h.subscription? number with
    | some s => h.modifyLine ch (·.tell (.cancelled tag s.queue))
    | none => h
  | .lost ch error => h.modifyLine ch (·.tell (.lost error))

/-- Whoever has waited longest for a channel hears what came of it. If the broker has made an end,
the channel is there from now on, under the next identity. -/
def enroll (h : Hub) : Hub :=
  match h.openings with
  | [] => h
  | o :: rest =>
    match Channel.attempt h.broker.nextIdentity o with
    | .ok machine =>
      { h with broker := h.broker.issue, lines := h.lines ++ [{ machine }], openings := rest }
    | .error _ => { h with openings := rest }

/-- What the event came to at the broker waits for those who asked for it: for a channel, or for
those who asked for one. -/
def concluded (h : Hub) (e : Event) (asked : Bool) (o : Channel.Outcome) : Hub :=
  match e with
  | .issue ch call _ => if asked then h.modifyLine ch (·.await call o) else h
  | .opening => { h with openings := h.openings ++ [o] }
  | .opened => h.enroll
  | _ => h

/-- One step of a hub. -/
def step (h : Hub) (e : Event) : Hub :=
  let r := h.response e
  (r.effects.foldl hear { h.started e with broker := r.broker }).concluded e
    (h.forwarded? e).isSome r.outcome

/-- The hub after a run. -/
def reached (events : List Event) : Hub := events.foldl step {}

/-- What the broker tells in a run, from a hub on. -/
def emittedFrom (h : Hub) : List Event → List Broker.Effect
  | [] => []
  | e :: rest => (h.response e).effects ++ (h.step e).emittedFrom rest

/-- What the broker tells in a run, in order. -/
def emitted (events : List Event) : List Broker.Effect := ({} : Hub).emittedFrom events

@[simp] theorem reached_nil : reached [] = {} := rfl

/-- The last event of a run is one step. -/
theorem reached_concat (u : List Event) (e : Event) : reached (u ++ [e]) = (reached u).step e := by
  rw [reached, List.foldl_append]
  rfl

/-- What is told in a run is told in its parts. -/
theorem emittedFrom_append (h : Hub) (u v : List Event) :
    h.emittedFrom (u ++ v) = h.emittedFrom u ++ (u.foldl step h).emittedFrom v := by
  induction u generalizing h with
  | nil => rfl
  | cons e u ih =>
    simp only [List.cons_append, emittedFrom, ih, List.foldl_cons, List.append_assoc]

/-- The last event of a run adds what the broker tells with it. -/
theorem emitted_concat (u : List Event) (e : Event) :
    emitted (u ++ [e]) = emitted u ++ ((reached u).response e).effects := by
  rw [emitted, emittedFrom_append]
  simp only [emittedFrom, List.append_nil]
  rfl

end Hub

end Amqp
