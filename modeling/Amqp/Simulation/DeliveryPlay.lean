import Amqp.Delivery.Machine
import Amqp.Simulation.Script

/-!
# Playing a single delivery

Steps on one delivery whose settler follows the script.
-/

namespace Amqp.Simulation.DeliveryPlay

/-- A step. -/
inductive Step where
  /-- A settlement, and the failure that the settler returns instead of accepting it. -/
  | settle (order : Delivery.Order) (failure : Option SettlerAnswer)
  | tag
  | cover (s : Settlement)
  | info
  | view (names : List String)
  | release (hold : String) (ending : Ending)
  deriving Repr

/-- What is written after a step. -/
structure Report where
  result : Option Shown
  calls : List CallRecord
  settled : List Late
  state : DeliveryState

/-- A call that the settler holds. -/
structure Held where
  name : String
  call : Nat
  failure : Option SettlerAnswer

/-- The delivery, the calls held, and what happened in the current step. -/
structure World where
  machine : Delivery.Machine
  holds : List Held := []
  calls : List CallRecord := []
  /-- The settlements that were over in the current step: the step that made each, and its
  result. -/
  done : List Late := []

/-- What the result of a settlement shows. -/
def shownOf : SettleResult → Shown
  | .ok => .ok .undefined
  | .failed e => .failed e.report
  | .threw v => .threw v

/-- The settler's answer to a call that ends now. -/
def answerOf (failure : Option SettlerAnswer) : Ending → Option SettlerAnswer
  | .throws v => some (.broke v)
  | .throwsAtOnce v => some (.broke v)
  | .held _ => none
  | _ => some (failure.getD .accepted)

/-- Records the ends of settlements. -/
def World.note (w : World) (effects : List Delivery.Effect) : World :=
  effects.foldl (fun w e =>
    match e with
    | .finish call result => { w with done := w.done ++ [⟨call, shownOf result⟩] }
    | .ask .. => w) w

/-- One event that does not ask the settler. -/
def World.event (w : World) (e : Delivery.Event) : World :=
  let (machine, effects) := w.machine.step e
  { w with machine }.note effects

/-- The word for a settlement's state. -/
def stateText (s : Settlement) : Value := .text s.state.word

/-- Issues a settlement; its number is the number of the step. -/
def World.settle (w : World) (index : Nat) (order : Delivery.Order)
    (failure : Option SettlerAnswer) (cue : Cue) : World :=
  let (machine, effects) := w.machine.step (.settle index order)
  let w := { w with machine }.note effects
  match effects with
  | [.ask call tag order] =>
    let w := { w with calls := w.calls ++ [{ method := "settle", args := [Value.ofNat tag,
      stateText order.settlement, order.multiple, order.requeue] }] }
    match cue.ending, answerOf failure cue.ending with
    | .held name, _ =>
      { w with holds := w.holds.filter (·.name != name) ++ [⟨name, call, failure⟩] }
    | _, some answer => w.event (.answered call answer)
    | _, none => w
  | _ => w

/-- What the accessors of a delivery show. -/
def infoOf (d : Delivery) : Value :=
  .table [("mode", .text d.mode.word), ("consumerTag", d.message.consumerTag),
    ("exchange", d.message.exchange), ("key", d.message.routingKey),
    ("redelivered", d.message.redelivered), ("properties", d.message.properties),
    ("body", .bytes d.message.body)]

/-- Plays one step. -/
def World.play (w : World) (index : Nat) (step : Step) (script : Script) : World × Report :=
  let w := { w with calls := [], done := [] }
  let (w, result) : World × Option Shown :=
    match step with
    | .settle order failure => (w.settle index order failure script.take.1, some .pending)
    | .tag =>
      match w.machine.delivery.tag with
      | .ok n => (w, some (.ok (Value.ofNat n)))
      | .error fault => (w, some (.failed fault.report))
    | .cover s => (w.event (.covered s), none)
    | .info => (w, some (.data (infoOf w.machine.delivery)))
    | .view names => (w, some (.views w.machine.delivery.message.body names))
    | .release name ending =>
      match w.holds.find? (·.name == name) with
      | none => (w, none)
      | some held =>
        let w := { w with holds := w.holds.filter (·.name != name) }
        match answerOf held.failure ending with
        | some answer => (w.event (.answered held.call answer), none)
        | none => (w, none)
  let (own, others) := Late.split index w.done
  (w, ⟨own.orElse fun _ => result, w.calls, others, w.machine.delivery.state⟩)

/-- Plays all steps from the one with the index on. -/
def World.playAll (w : World) (index : Nat) : List (Step × Script) → List Report
  | [] => []
  | (step, script) :: rest =>
    let (w, report) := w.play index step script
    report :: World.playAll w (index + 1) rest

/-- The reports of all steps on a delivery. -/
def reports (d : Delivery) (steps : List (Step × Script)) : List Report :=
  World.playAll { machine := { delivery := d } } 0 steps

end Amqp.Simulation.DeliveryPlay
