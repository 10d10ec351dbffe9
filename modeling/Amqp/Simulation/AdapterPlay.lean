import Amqp.Simulation.Remote

/-!
# Playing an adapter

Steps on one adapter over a scripted client.
-/

namespace Amqp.Simulation.AdapterPlay

/-- A step. -/
inductive Step where
  /-- A primitive; the flag says whether a consumer wants to hear of its cancellation. -/
  | primitive (p : Channel.Primitive) (hearsCancel : Bool)
  /-- Someone wants to hear of the end of the channel. -/
  | listen (listener : Nat)
  | deliver (consumer : Nat) (message : Message)
  | brokerCancel (consumer : Nat)
  | closed (error : Option Value)
  | failed (error : Value)
  | release (hold : String) (ending : Ending)
  deriving Repr

/-- What is written after a step. -/
structure Report where
  result : Option Shown
  calls : List CallRecord
  logs : List LogEntry
  events : List (List Value)
  settled : List Late
  tags : List Value

/-- A call that the client holds, with its neutral reply. -/
structure Held where
  name : String
  call : Nat
  neutral : Value

/-- The adapter, and what happened in the current step. -/
structure World where
  adapter : Client.Adapter := {}
  /-- The consumers that do not want to hear of their cancellation. -/
  deaf : List Nat := []
  holds : List Held := []
  script : Script := []
  calls : List CallRecord := []
  logs : List LogEntry := []
  events : List (List Value) := []
  ends : List Late := []
  /-- What the adapter threw back at the client, which ends the play. -/
  broken : Option Value := none

/-- What a callback records of a delivery. -/
def deliveryValue (m : Message) : Value :=
  .table [("deliveryTag", m.tag.toValue), ("consumerTag", m.consumerTag),
    ("exchange", m.exchange), ("routingKey", m.routingKey),
    ("redelivered", m.redelivered), ("content", .bytes m.body),
    ("properties", m.properties)]

/-- What the outcome of a primitive shows. -/
def shownOf : Channel.Outcome → Shown
  | .replied v => .ok v
  | .threw v => .threw v

namespace World

/-- Records the effects that do not call the client. -/
def note (w : World) (effects : List Client.Effect) : World :=
  effects.foldl (fun w e =>
    match e with
    | .ask .. => w
    | .finish call outcome => { w with ends := w.ends ++ [⟨call, shownOf outcome⟩] }
    | .deliver _ message =>
      { w with events := w.events ++ [[.text "delivery", deliveryValue message]] }
    | .cancelled consumer tag =>
      if w.deaf.contains consumer then w
      else { w with events := w.events ++ [[.text "cancel", tag]] }
    | .lost listener error =>
      { w with events := w.events ++ [[.text "close", .ofNat listener, (error.getD .null).orNull]] }
    | .broke thrown => { w with broken := some thrown }
    | .log entry => { w with logs := w.logs ++ [entry] }) w

/-- One event of the adapter. -/
def event (w : World) (e : Client.Event) : World × List Client.Effect :=
  let (adapter, effects) := w.adapter.step e
  ({ w with adapter }.note effects, effects)

/-- The client gets a call and takes its next cue. -/
def reach (w : World) (id : Nat) (call : Client.Call) : World :=
  let (cue, script) := w.script.take
  let w := { w with script, calls := w.calls ++ [recordOf 0 (clientRecord call)] }
  let neutral := clientReply w.adapter.consumers.length call
  let w := match cue.closing with
    | some error => (w.event (.closed error)).1
    | none => w
  match call.isImmediate, cue.ending with
  | false, .held name =>
    { w with holds := w.holds.filter (·.name != name) ++ [⟨name, id, neutral⟩] }
  | _, ending => (w.event (.answered id (immediateOutcome neutral ending))).1

/-- Asks for a primitive; its number is the number of the step. -/
def issue (w : World) (index : Nat) (p : Channel.Primitive) : World :=
  let (w, effects) := w.event (.issue index p)
  effects.foldl (fun w e =>
    match e with
    | .ask id call => w.reach id call
    | _ => w) w

/-- Plays one step. -/
def play (w : World) (index : Nat) (step : Step) (script : Script) : World × Report :=
  let w := { w with script, calls := [], logs := [], events := [], ends := [] }
  let (w, result) : World × Option Shown :=
    match step with
    | .primitive p hearsCancel =>
      let consumer := w.adapter.consumers.length
      let w := w.issue index p
      let started := consumer < w.adapter.consumers.length
      (if started && !hearsCancel then { w with deaf := w.deaf ++ [consumer] } else w,
        some .pending)
    | .listen listener => ((w.event (.listen listener)).1, none)
    | .deliver consumer message =>
      if consumer < w.adapter.consumers.length then
        ((w.event (.handed consumer message)).1, none)
      else (w, some (.note "no such consumer"))
    | .brokerCancel consumer =>
      if consumer < w.adapter.consumers.length then ((w.event (.dropped consumer)).1, none)
      else (w, some (.note "no such consumer"))
    | .closed error => ((w.event (.closed error)).1, none)
    | .failed error => ((w.event (.failed error)).1, none)
    | .release name ending =>
      match w.holds.find? (·.name == name) with
      | none => (w, some (.note "no such hold"))
      | some held =>
        let w := { w with holds := w.holds.filter (·.name != name) }
        ((w.event (.answered held.call (immediateOutcome held.neutral ending))).1, none)
  let (own, settled) := Late.split index w.ends
  (w, ⟨own.orElse fun _ => result, w.calls, w.logs, w.events, settled,
    w.adapter.tags.map (·.tag)⟩)

/-- Plays all steps from the one with the index on. What is thrown back at the client is thrown. -/
def playAll (w : World) (index : Nat) : List (Step × Script) → Except Value (List Report)
  | [] => .ok []
  | (step, script) :: rest =>
    let (w, report) := w.play index step script
    match w.broken with
    | some thrown => .error thrown
    | none => (playAll w (index + 1) rest).map (report :: ·)

end World

/-- The reports of all steps. -/
def reports (steps : List (Step × Script)) : Except Value (List Report) := World.playAll {} 0 steps

end Amqp.Simulation.AdapterPlay
