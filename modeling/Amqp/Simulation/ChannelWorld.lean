import Amqp.Simulation.Handler
import Amqp.Simulation.Remote
import Amqp.Simulation.Snapshot

/-!
# Channels over a simulated transport

Channels over one of three transports: a scripted one, an adapter over a scripted client, or a
broker. Whatever has to wait is a job, and jobs run one after the other in the order in which they
were added, so that a run is determined by its steps.
-/

namespace Amqp.Simulation

/-- What the channels are opened over. -/
inductive Medium where
  | transport
  | client
  | broker
  deriving DecidableEq, Repr, Inhabited

/-- Who made a call. -/
inductive Owner where
  /-- The step with that index. -/
  | step (index : Nat)
  /-- The handler of the delivery that was recorded under that number. -/
  | handler (d : Nat)
  deriving DecidableEq, Repr, Inhabited

/-- A consumer that was asked for: the call that asked, and what it asked for. -/
structure Subscription where
  call : Nat
  channel : Nat
  queue : Value
  mode : AckMode
  handler : Handler
  deriving Repr, Inhabited

/-- Something that has to wait. -/
inductive Job where
  /-- An attempt to open a channel is answered. -/
  | opened (call : Nat) (reply : Connection.Reply)
  /-- The client answers a call of an adapter. -/
  | clientAnswered (channel call : Nat) (outcome : Channel.Outcome)
  /-- The transport answers a primitive. -/
  | answered (channel call : Nat) (outcome : Channel.Outcome)
  /-- A delivery hears of its settlement. -/
  | heard (channel call : Nat)
  /-- The next handler of a channel starts. -/
  | turn (channel : Nat)
  /-- A call of a handler is over. -/
  | handled (d : Nat) (shown : Shown)
  /-- A handler fails. -/
  | failed (channel delivery : Nat) (thrown : Value)
  /-- The broker serves a queue. -/
  | serve
  /-- The job waits for its turn so many times more. -/
  | later (times : Nat) (job : Job)
  deriving Repr, Inhabited

/-- What the remote does once it lets go of a call. -/
inductive Target where
  | opening (call : Nat)
  | primitive (channel call : Nat) (neutral : Value)
  deriving Repr, Inhabited

/-- A consumer that a channel's remote was asked for: the call that asked, and the tag that the
remote gives it if nothing else is said. -/
structure Enlisted where
  channel : Nat
  call : Nat
  tag : Value
  deriving Repr, Inhabited

/-- An opened channel and the remote it has. -/
structure Line where
  machine : Channel.Machine
  adapter : Client.Adapter := {}
  deriving Repr, Inhabited

/-- A delivery that was handed to a handler: its channel, and its number there. -/
structure Recorded where
  channel : Nat
  delivery : Nat
  deriving DecidableEq, Repr, Inhabited

/-- All channels, what has to wait, and what happened in the current step. -/
structure World where
  medium : Medium
  lines : List Line := []
  broker : Broker := {}
  subscriptions : List Subscription := []
  owners : List (Nat × Owner) := []
  recorded : List Recorded := []
  /-- The consumers that all remotes together were asked for, in order. -/
  consumers : List Enlisted := []
  holds : List (String × Target) := []
  jobs : List Job := []
  script : Script := []
  calls : List CallRecord := []
  logs : List LogEntry := []
  /-- The deliveries handed to handlers, under their numbers. -/
  delivered : List (Nat × Delivery) := []
  handled : List (Nat × Shown) := []
  ends : List Late := []
  /-- What was thrown back at the remote that told something. -/
  thrown : Option Value := none
  deriving Repr, Inhabited

namespace World

/-- Adds a job. -/
def push (w : World) (job : Job) : World := { w with jobs := w.jobs ++ [job] }

/-- Adds a log entry. -/
def log (w : World) (entry : LogEntry) : World := { w with logs := w.logs ++ [entry] }

/-- Gives a call of that owner a number. -/
def own (w : World) (o : Owner) : World × Nat :=
  let call := w.owners.length
  ({ w with owners := w.owners ++ [(call, o)] }, call)

/-- A call is over. A step's call is reported; a handler records its own in its next turn, or fails
with it. -/
def finish (w : World) (call : Nat) (shown : Shown) : World :=
  match w.owners.find? (·.1 == call) with
  | some (_, .step index) => { w with ends := w.ends ++ [⟨index, shown⟩] }
  | some (_, .handler d) =>
    match shown, w.recorded[d]? with
    | .threw thrown, some r => w.push (.later 3 (.failed r.channel r.delivery thrown))
    | _, _ => w.push (.handled d shown)
  | none => w

/-- The world with a channel changed. -/
def modifyLine (w : World) (ch : Nat) (f : Line → Line) : World :=
  { w with lines := w.lines.modify ch f }

/-- One event of a channel, with the effects that ask nothing carried out. -/
def tell (w : World) (ch : Nat) (e : Channel.Event) : World × List Channel.Effect :=
  match w.lines[ch]? with
  | none => (w, [])
  | some line =>
    let (machine, effects) := line.machine.step e
    let w := w.modifyLine ch fun line => { line with machine }
    (effects.foldl (fun w e =>
      match e with
      | .log entry => w.log entry
      | .finish call answer => w.finish call (.ofAnswer answer)
      | .await call => w.push (.heard ch call)
      | .broke thrown => { w with thrown := some thrown }
      | _ => w) w, effects)

/-- Remembers what a call asked for. -/
def subscribe (w : World) (s : Subscription) : World :=
  { w with subscriptions := w.subscriptions ++ [s] }

/-- The subscription that a call asked for. -/
def subscription? (w : World) (call : Nat) : Option Subscription :=
  w.subscriptions.find? (·.call == call)

/-- How many handlers of a channel have not started. -/
def waiting (w : World) (ch : Nat) : Nat :=
  ((w.lines[ch]?).map fun line => line.machine.turns.length).getD 0

/-- A message arrives at a channel for the consumer that a call asked for. -/
def arrive (w : World) (ch call : Nat) (m : Message) : World :=
  match w.subscription? call with
  | none => w
  | some s =>
    let before := w.waiting ch
    let w := (w.tell ch (.arrived call s.mode m)).1
    if before < w.waiting ch then w.push (.turn ch) else w

/-- A channel hears that the consumer a call asked for is cancelled. -/
def hearCancelled (w : World) (ch call : Nat) (tag : Value) : World :=
  match w.subscription? call with
  | none => w
  | some s => (w.tell ch (.cancelled tag s.queue)).1

/-- The consumers that a channel's remote was asked for, in order. -/
def consumersOf (w : World) (ch : Nat) : List Enlisted := w.consumers.filter (·.channel == ch)

/-- The call that asked for a consumer of a channel. -/
def callOf (w : World) (ch consumer : Nat) : Nat :=
  (((w.consumersOf ch)[consumer]?).map (·.call)).getD 0

/-- Which of a channel's consumers the consumer with that number among all is. -/
def placeOf (w : World) (consumer ch : Nat) : Nat :=
  (w.consumers.take consumer).countP (·.channel == ch)

/-- One event of an adapter, with the effects that do not call the client carried out. -/
def tellAdapter (w : World) (ch : Nat) (e : Client.Event) : World × List Client.Effect :=
  match w.lines[ch]? with
  | none => (w, [])
  | some line =>
    let (adapter, effects) := line.adapter.step e
    let w := w.modifyLine ch fun line => { line with adapter }
    (effects.foldl (fun w e =>
      match e with
      | .ask .. => w
      | .finish call outcome => w.push (.answered ch call outcome)
      | .deliver consumer m => w.arrive ch (w.callOf ch consumer) m
      | .cancelled consumer tag => w.hearCancelled ch (w.callOf ch consumer) tag
      | .lost _ error => (w.tell ch (.lost error)).1
      | .broke thrown => { w with thrown := some thrown }
      | .log entry => w.log entry) w, effects)

/-- One event of the broker, with its effects carried out. -/
def tellBroker (w : World) (e : Broker.Event) : World × Channel.Outcome :=
  let r := w.broker.step e
  let added := r.broker.scheduled.length - w.broker.scheduled.length
  let w := { w with broker := r.broker, jobs := w.jobs ++ List.replicate added .serve }
  (r.effects.foldl (fun w e =>
    match e with
    | .deliver ch call m => w.arrive ch call m
    | .cancelled ch call tag => w.hearCancelled ch call tag
    | .lost ch error => (w.tell ch (.lost error)).1) w, r.outcome)

/-- The remote of a channel fires its close event. -/
def lose (w : World) (ch : Nat) (error : Option Value) : World :=
  match w.medium with
  | .client => (w.tellAdapter ch (.closed error)).1
  | _ => (w.tell ch (.lost error)).1

/-- A remote gets a call and takes its next cue. -/
def reach (w : World) (ch : Nat) (record : String × List Value) : World × Ending :=
  let (cue, script) := w.script.take
  let w := { w with script, calls := w.calls ++ [recordOf ch record] }
  match cue.closing with
  | some error => (w.lose ch error, cue.ending)
  | none => (w, cue.ending)

/-- The remote holds a call under a name. -/
def hold (w : World) (name : String) (t : Target) : World :=
  { w with holds := w.holds.filter (·.1 != name) ++ [(name, t)] }

/-- Remembers a call that asks a remote for a consumer. -/
def enlist (w : World) (ch call : Nat) : Channel.Primitive → World
  | .basicConsume _ options =>
    let number := w.consumers.length + 1
    { w with consumers := w.consumers ++ [Enlisted.mk ch call (neutralTag options number)] }
  | _ => w

/-- The scripted transport gets a primitive. -/
def askTransport (w : World) (ch call : Nat) (p : Channel.Primitive) : World :=
  let w := w.enlist ch call p
  let neutral := primitiveReply w.consumers.length p
  let (w, ending) := w.reach ch (primitiveRecord p)
  match ending, outcomeOf neutral ending with
  | .held name, _ => w.hold name (.primitive ch call neutral)
  | _, some outcome => w.push (.answered ch call outcome)
  | _, none => w

/-- The scripted client gets a call of an adapter. -/
def askClient (w : World) (ch id : Nat) (call : Client.Call) : World :=
  let neutral := clientReply w.consumers.length call
  let (w, ending) := w.reach ch (clientRecord call)
  match call.isImmediate, ending with
  | false, .held name => w.hold name (.primitive ch id neutral)
  | true, ending => (w.tellAdapter ch (.answered id (immediateOutcome neutral ending))).1
  | false, ending => w.push (.clientAnswered ch id (immediateOutcome neutral ending))

/-- The transport is asked for a primitive. -/
def ask (w : World) (ch call : Nat) (p : Channel.Primitive) : World :=
  match w.medium with
  | .transport => w.askTransport ch call p
  | .client =>
    let w := w.enlist ch call p
    let (w, effects) := w.tellAdapter ch (.issue call p)
    effects.foldl (fun w e =>
      match e with
      | .ask id request => w.askClient ch id request
      | _ => w) w
  | .broker =>
    let (w, outcome) := w.tellBroker (.request ch call p)
    w.push (.answered ch call outcome)

/-- A caller asks something of a channel. -/
def issue (w : World) (ch call : Nat) (r : Channel.Request) : World :=
  let (w, effects) := w.tell ch (.issue call r)
  effects.foldl (fun w e =>
    match e with
    | .ask call p => w.ask ch call p
    | _ => w) w

/-- A handler starts on a delivery: it records it, and then it reacts. -/
def handle (w : World) (ch : Nat) (t : Channel.Turn) : World :=
  match (w.lines[ch]?).bind fun line => line.machine.channel.deliveries[t.delivery]?,
      w.subscription? t.consumer with
  | some delivery, some s =>
    let d := w.recorded.length
    let w := { w with
      recorded := w.recorded ++ [⟨ch, t.delivery⟩]
      delivered := w.delivered ++ [(d, delivery)] }
    match s.handler.react t.delivery delivery with
    | .nothing => w
    | .throws thrown => w.push (.later 2 (.failed ch t.delivery thrown))
    | .asks r =>
      let (w, call) := w.own (.handler d)
      w.issue ch call r
  | _, _ => w

/-- An attempt to open a channel under that identity is over. -/
def concludeOpening (w : World) (call : Nat) (id : String) (o : Channel.Outcome) : World :=
  match Channel.attempt id o with
  | .ok machine =>
    let line : Line := { machine, adapter := (({} : Client.Adapter).step (.listen 0)).1 }
    { w with lines := w.lines ++ [line] }.finish call (.ok (.table [("sessionId", .text id)]))
  | .error (.failed e) => (w.log (Channel.failureEntry e)).finish call (.failed e.report)
  | .error answer => w.finish call (.ofAnswer answer)

/-- An attempt to open a channel is answered. Something else in the place of a channel cannot be
listened to; a transport finds that out once the channel has its identity, an adapter before. -/
def answerOpening (w : World) (call : Nat) (reply : Connection.Reply) : World :=
  let id := w.broker.nextIdentity
  let issued := { w with broker := w.broker.issue }
  match reply with
  | .done => issued.concludeOpening call id (.replied .undefined)
  | .gave v =>
    match w.medium with
    | .client => w.concludeOpening call id (.threw (missingOperationFault "channel" v "on"))
    | _ => issued.concludeOpening call id (.threw (missingOperationFault "channel" v "onClose"))
  | .threw thrown => w.concludeOpening call id (.threw thrown)

/-- Runs a job. -/
def perform (w : World) : Job → World
  | .opened call reply => w.answerOpening call reply
  | .clientAnswered ch call outcome => (w.tellAdapter ch (.answered call outcome)).1
  | .answered ch call outcome => (w.tell ch (.answered call outcome)).1
  | .heard ch call => (w.tell ch (.heard call)).1
  | .turn ch =>
    let (w, effects) := w.tell ch .turn
    effects.foldl (fun w e =>
      match e with
      | .start t => w.handle ch t
      | _ => w) w
  | .handled d shown => { w with handled := w.handled ++ [(d, shown)] }
  | .failed ch delivery thrown => (w.tell ch (.handlerFailed delivery thrown)).1
  | .serve => (w.tellBroker .serve).1
  | .later 0 job => w.perform job
  | .later (n + 1) job => w.push (.later n job)

/-- Runs jobs until there are none, at most as many as the bound says. -/
def settle (w : World) : Nat → World
  | 0 => w
  | bound + 1 =>
    match w.jobs with
    | [] => w
    | job :: rest => ({ w with jobs := rest }.perform job).settle bound

end World

end Amqp.Simulation
