import Amqp.Simulation.ChannelWorld

/-!
# Playing channels

Steps on channels over one simulated transport. After each step all jobs run, and a report is
written.
-/

namespace Amqp.Simulation.ChannelPlay

/-- A step. -/
inductive Step where
  | openChannel
  | request (channel : Nat) (r : Channel.Request)
  | consume (channel : Nat) (queue options : Value) (handler : Handler)
  | deliver (channel consumer : Nat) (message : Message)
  | brokerCancel (channel consumer : Nat)
  | closed (channel : Nat) (error : Option Value)
  | failed (channel : Nat) (error : Value)
  /-- Settles the delivery that was recorded under that number. -/
  | settle (channel d : Nat) (s : Settlement) (multiple requeue : Value)
  | tag (channel d : Nat)
  | view (channel d : Nat) (names : List String)
  | release (hold : String) (ending : Ending)
  | disconnect (error : Value)
  | refuseNext (error : Value)
  | snapshot
  deriving Repr

namespace Step

/-- The recorded delivery that a step needs. -/
def delivery? : Step → Option Nat
  | settle _ d .. => some d
  | tag _ d => some d
  | view _ d _ => some d
  | _ => none

/-- The channel that a step needs. -/
def channel? : Step → Option Nat
  | request ch _ => some ch
  | consume ch .. => some ch
  | deliver ch .. => some ch
  | brokerCancel ch _ => some ch
  | closed ch _ => some ch
  | failed ch _ => some ch
  | settle ch .. => some ch
  | tag ch _ => some ch
  | view ch .. => some ch
  | _ => none

/-- The consumer that a step needs. -/
def consumer? : Step → Option Nat
  | deliver _ consumer _ => some consumer
  | brokerCancel _ consumer => some consumer
  | _ => none

/-- The hold that a step needs. -/
def hold? : Step → Option String
  | release name _ => some name
  | _ => none

/-- What a step shows if it starts a call that is not over. -/
def unfinished : Step → Option Shown
  | openChannel => some .pending
  | request .. => some .pending
  | consume .. => some .pending
  | settle .. => some .pending
  | _ => none

end Step

/-- What is written after a step. -/
structure Report where
  result : Option Shown
  calls : List CallRecord
  logs : List LogEntry
  delivered : List (Nat × Delivery)
  handled : List (Nat × Shown)
  settled : List Late
  channels : List Channel
  states : List DeliveryState

/-- Whether an option holds a number that is not below the bound. -/
def isMissing (bound : Nat) : Option Nat → Bool
  | some n => bound ≤ n
  | none => false

/-- Why a step cannot be played: what it needs is not there. -/
def objection? (w : World) (step : Step) : Option String :=
  if isMissing w.recorded.length step.delivery? then some "no such delivery"
  else if isMissing w.lines.length step.channel? then some "no such channel"
  else if isMissing w.consumers.length step.consumer? then some "no such consumer"
  else
    match step.hold? with
    | some name => if w.holds.any (·.1 == name) then none else some "no such hold"
    | none => none

/-- The delivery that was recorded under a number. -/
def delivery? (w : World) (d : Nat) : Option Delivery := do
  let r ← w.recorded[d]?
  let line ← w.lines[r.channel]?
  line.machine.channel.deliveries[r.delivery]?

/-- Someone asks for a channel. -/
def openChannel (w : World) (call : Nat) : World :=
  match w.medium with
  | .broker =>
    let (w, outcome) := w.tellBroker .openChannel
    w.push (.opened call (match outcome with
      | .replied _ => .done
      | .threw thrown => .threw thrown))
  | _ =>
    let (w, ending) := w.reach w.lines.length ("createChannel", [])
    match ending, replyOf ending with
    | .held name, _ => w.hold name (.opening call)
    | _, some reply => w.push (.opened call reply)
    | _, none => w

/-- What comes of telling something: it shows only what is thrown back. -/
def thrownBack (w : World) : World × Option Shown := (w, w.thrown.map .threw)

/-- The remote hands a message to a consumer, whichever channel it belongs to. -/
def deliver (w : World) (consumer : Nat) (m : Message) : World :=
  match w.medium, w.consumers[consumer]? with
  | .client, some e => (w.tellAdapter e.channel (.handed (w.placeOf consumer e.channel) m)).1
  | _, some e => w.arrive e.channel e.call m
  | _, none => w

/-- The remote cancels a consumer, whichever channel it belongs to. -/
def brokerCancel (w : World) (consumer : Nat) : World :=
  match w.medium, w.consumers[consumer]? with
  | .client, some e =>
    (w.tellAdapter e.channel (.dropped (w.placeOf consumer e.channel))).1
  | _, some e => w.hearCancelled e.channel e.call e.tag
  | _, none => w

/-- The remote lets go of a call. -/
def release (w : World) (name : String) (ending : Ending) : World :=
  match w.holds.find? (·.1 == name) with
  | none => w
  | some (_, target) =>
    let w := { w with holds := w.holds.filter (·.1 != name) }
    match target with
    | .opening call => w.push (.opened call ((replyOf ending).getD .done))
    | .primitive ch call neutral =>
      let outcome := immediateOutcome neutral ending
      match w.medium with
      | .client => w.push (.clientAnswered ch call outcome)
      | _ => w.push (.answered ch call outcome)

/-- What the tag of a delivery shows. -/
def tagShown (d : Delivery) : Shown :=
  match d.tag with
  | .ok n => .ok (.ofNat n)
  | .error fault => .failed fault.report

/-- Carries out a step, up to what has to wait; a call of the step gets a number of its own. -/
def start (w : World) (index : Nat) : Step → World × Option Shown
  | .openChannel =>
    let (w, call) := w.own (.step index)
    (openChannel w call, none)
  | .request ch r =>
    let (w, call) := w.own (.step index)
    (w.issue ch call r, none)
  | .consume ch queue options handler =>
    let (w, call) := w.own (.step index)
    let subscription := ⟨call, ch, queue, Channel.ackModeOf options, handler⟩
    ((w.subscribe subscription).issue ch call (.consume queue options), none)
  | .deliver _ consumer m => thrownBack (deliver w consumer m)
  | .brokerCancel _ consumer => thrownBack (brokerCancel w consumer)
  | .closed ch error => (w.lose ch error, none)
  | .failed ch error =>
    match w.medium with
    | .client => thrownBack (w.tellAdapter ch (.failed error)).1
    | _ => (w, none)
  | .settle _ d s multiple requeue =>
    match w.recorded[d]? with
    | some r =>
      let (w, call) := w.own (.step index)
      (w.issue r.channel call (.settle r.delivery s multiple requeue), none)
    | none => (w, none)
  | .tag _ d =>
    (w, (delivery? w d).map tagShown)
  | .view _ d names => (w, (delivery? w d).map fun delivery => .views delivery.message.body names)
  | .release name ending => (release w name ending, none)
  | .disconnect error => ((w.tellBroker (.disconnect error)).1, none)
  | .refuseNext error => ((w.tellBroker (.refuseNext error)).1, none)
  | .snapshot => (w, some (.data (Simulation.snapshot w.broker)))

/-- How many jobs a step may take. -/
def patience : Nat := 1000000

/-- Plays one step. -/
def play (w : World) (index : Nat) (step : Step) (script : Script) : World × Report :=
  let w := { w with
    script, calls := [], logs := [], delivered := [], handled := [], ends := [], thrown := none }
  let (w, result) : World × Option Shown :=
    match objection? w step with
    | some remark => (w, some (.note remark))
    | none =>
      let (w, shown) := start w index step
      (w, shown.orElse fun _ => step.unfinished)
  let w := w.settle patience
  let (own, settled) := Late.split index w.ends
  (w,
    { result := own.orElse fun _ => result
      calls := w.calls
      logs := w.logs
      delivered := w.delivered
      handled := w.handled
      settled
      channels := w.lines.map fun line => line.machine.channel
      states := (List.range w.recorded.length).filterMap fun d => (delivery? w d).map (·.state) })

/-- Plays all steps from the one with the index on. -/
def playAll (w : World) (index : Nat) : List (Step × Script) → List Report
  | [] => []
  | (step, script) :: rest =>
    let (w, report) := play w index step script
    report :: playAll w (index + 1) rest

/-- The reports of all steps. -/
def reports (medium : Medium) (steps : List (Step × Script)) : List Report :=
  playAll { medium } 0 steps

end Amqp.Simulation.ChannelPlay
