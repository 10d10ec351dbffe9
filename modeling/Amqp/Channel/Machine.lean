import Amqp.Channel.State

/-!
# A channel and its calls in flight

The state of a channel together with the calls that are not over and the deliveries whose handlers
have not started. `step` says what one event does; the events may come in any order, so a run is any
list of them. Effects go to the transport, to the callers and to the handlers.

A settlement takes two steps after its primitive is answered: first the ledger is brought up to
date, then the delivery hears of it. Every other call is over with the answer.
-/

namespace Amqp.Channel

/-- What a delivery is told about its settlement. -/
inductive Verdict where
  | accepted
  | refused (error : OperationError)
  /-- The refusal could not be described. -/
  | broke (thrown : Value)
  deriving Repr, Inhabited

/-- How far a call has come. -/
inductive Phase where
  /-- The transport has been asked. The flag says whether the channel was open before. -/
  | asked (wasOpen : Bool)
  /-- The tag's settlement is decided, and the delivery has not heard of it. -/
  | decided (verdict : Verdict)
  deriving Repr, Inhabited

/-- A call in flight. -/
structure Call where
  /-- The number the caller knows it by. -/
  id : Nat
  request : Request
  /-- How its failure is worded. -/
  summary : String := ""
  /-- The tag, for a settlement. -/
  tag : Nat := 0
  phase : Phase
  deriving Repr, Inhabited

/-- A handler that has not started: its delivery, and the consumer it belongs to. -/
structure Turn where
  delivery : Nat
  consumer : Nat
  deriving DecidableEq, Repr, Inhabited

/-- A channel, its calls in flight, and the handlers that have not started, first one first. -/
structure Machine where
  channel : Channel
  calls : List Call := []
  turns : List Turn := []
  deriving Repr, Inhabited

/-- What happens to a channel. -/
inductive Event where
  /-- A caller asks something, under a number of its own. -/
  | issue (call : Nat) (request : Request)
  /-- The transport answers the call's primitive. -/
  | answered (call : Nat) (outcome : Outcome)
  /-- The delivery of a decided settlement hears of it. -/
  | heard (call : Nat)
  /-- The transport reports that its channel is gone. -/
  | lost (error : Option Value)
  /-- A message arrives for a consumer. -/
  | arrived (consumer : Nat) (mode : AckMode) (message : Message)
  /-- The next handler starts. -/
  | turn
  /-- The handler of a delivery fails. -/
  | handlerFailed (delivery : Nat) (thrown : Value)
  /-- The broker cancels a consumer. -/
  | cancelled (consumerTag queue : Value)
  deriving Repr, Inhabited

/-- What a channel does. -/
inductive Effect where
  /-- It asks the transport, on behalf of the call. -/
  | ask (call : Nat) (primitive : Primitive)
  /-- The call goes on once the delivery hears of its settlement. -/
  | await (call : Nat)
  /-- The call is over. -/
  | finish (call : Nat) (answer : Answer)
  /-- The handler of a consumer starts on a delivery. -/
  | start (turn : Turn)
  /-- It breaks on what the transport tells it. -/
  | broke (thrown : Value)
  | log (entry : LogEntry)
  deriving Repr, Inhabited

namespace Machine

/-- The machine with its channel changed. -/
def withChannel (m : Machine) (c : Channel) : Machine := { m with channel := c }

/-- The machine with one more call in flight. -/
def push (m : Machine) (call : Call) : Machine := { m with calls := m.calls ++ [call] }

/-- The machine without a call. -/
def drop (m : Machine) (id : Nat) : Machine := { m with calls := m.calls.filter (·.id != id) }

/-- The call with that number. -/
def call? (m : Machine) (id : Nat) : Option Call := m.calls.find? (·.id == id)

/-- Asks the transport for a call. -/
def ask (m : Machine) (id : Nat) (r : Request) (summary : String) (p : Primitive) :
    Machine × List Effect :=
  (m.push { id, request := r, summary, phase := .asked m.channel.isOpen }, [.ask id p])

/-- Ends a call. -/
def finish (m : Machine) (id : Nat) (a : Answer) : Machine × List Effect :=
  (m.drop id, [.finish id a])

/-- Ends a call with a failure, or breaks it if the failure cannot be described. -/
def fail (m : Machine) (id : Nat) : Except Value OperationError → Machine × List Effect
  | .ok e => (m.drop id, [.log (failureEntry e), .finish id (.failed e)])
  | .error thrown => m.finish id (.threw thrown)

/-- Issues a settlement. -/
def issueSettle (m : Machine) (id d : Nat) (s : Settlement) (multiple requeue : Value) :
    Machine × List Effect :=
  match m.channel.deliveries[d]? with
  | none => (m, [])
  | some delivery =>
    let request := Request.settle d s multiple requeue
    match delivery.claim s with
    | (.refused fault, _) => (m, [.finish id (.misused fault)])
    | (.settled, delivery) =>
      (m.withChannel (m.channel.modifyDelivery d fun _ => delivery), [.finish id (.ok .undefined)])
    | (.asks tag, delivery) =>
      let m := m.withChannel (m.channel.modifyDelivery d fun _ => delivery)
      if m.channel.isOpen then
        (m.push { id, request, tag, phase := .asked true },
          [.ask id (Request.settlePrimitive s tag multiple requeue)])
      else
        (m.push { id, request, tag, phase := .decided (.refused (settleClosedError s tag)) },
          [.await id])

/-- Issues a request that an open channel passes on. -/
def issueOperation (m : Machine) (id : Nat) (r : Request) (summary : String) :
    Machine × List Effect :=
  if m.channel.isOpen then
    match r.primitive? with
    | some p => m.ask id r summary p
    | none => (m, [])
  else (m, [.finish id (.failed (m.channel.closedError r summary))])

/-- Issues a request that is worded. -/
def issueWorded (m : Machine) (id : Nat) (summary : String) : Request → Machine × List Effect
  | .close params =>
    let (m', effects) := m.ask id (.close params) summary (.close (truthy? params))
    (m'.withChannel { m'.channel with closing := true }, effects)
  | .abort params =>
    let (m', effects) := m.ask id (.abort params) summary (.abort (truthy? params))
    (m'.withChannel m'.channel.markClosed, effects)
  | .declareExchange spec =>
    match m.channel.isOpen, reservedExchangeWarning? (spec.field "name") with
    | true, some warning => (m, [.log warning, .finish id (.ok .undefined)])
    | _, _ => m.issueOperation id (.declareExchange spec) summary
  | .settle d s multiple requeue =>
    m.issueSettle id d s (multiple.ifDefined (.bool false)) (requeue.ifDefined (.bool true))
  | r => m.issueOperation id r summary

/-- Issues a request; one that cannot be worded breaks at once. -/
def issue (m : Machine) (id : Nat) (r : Request) : Machine × List Effect :=
  match r.summary m.channel.id with
  | .ok summary => m.issueWorded id summary r
  | .error fault => (m, [.finish id (.threw fault)])

/-- The settlement of a tag is answered: the ledger is brought up to date. -/
def decide (m : Machine) (call : Call) (s : Settlement) (multiple : Bool) (verdict : Verdict) :
    Machine × List Effect :=
  let decided (verdict : Verdict) := (m.drop call.id).push { call with phase := .decided verdict }
  match verdict with
  | .accepted =>
    let (channel, fault) := m.channel.release call.tag s multiple
    (((fault.map fun v => decided (.broke v)).getD (decided verdict)).withChannel channel,
      [.await call.id])
  | .refused e => (decided verdict, [.log (failureEntry e), .await call.id])
  | .broke _ => (decided verdict, [.await call.id])

/-- What the transport's answer to a settlement means. -/
def verdictOf (s : Settlement) (tag : Nat) : Outcome → Verdict
  | .replied _ => .accepted
  | .threw thrown =>
    match OperationError.ofThrown .acknowledgement (Request.settleSummary s tag) thrown with
    | .ok e => .refused e
    | .error thrown => .broke thrown

/-- The transport answers a close. -/
def answerClose (m : Machine) (call : Call) (wasOpen : Bool) (o : Outcome) :
    Machine × List Effect :=
  let c := { m.channel with closing := false }
  match o with
  | .threw thrown =>
    (m.withChannel c).fail call.id
      (OperationError.ofThrown .channelClose call.summary thrown)
  | .replied _ =>
    let said := if wasOpen then [.log c.closeEntry] else []
    ((m.withChannel c.markClosed).drop call.id, said ++ [.finish call.id (.ok .undefined)])

/-- The transport answers any other request that was passed on. -/
def answerOperation (m : Machine) (call : Call) (o : Outcome) : Machine × List Effect :=
  let failed (thrown : Value) :=
    m.fail call.id (OperationError.ofThrown call.request.kind call.summary thrown)
  match o with
  | .threw thrown => failed thrown
  | .replied reply =>
    match call.request.valueOf reply with
    | .ok v => m.finish call.id (.ok v)
    | .error thrown => failed thrown

/-- The transport answers a call. -/
def answer (m : Machine) (call : Call) (o : Outcome) : Machine × List Effect :=
  match call.phase, call.request with
  | .decided _, _ => (m, [])
  | .asked _, .settle _ s multiple _ =>
    m.decide call s multiple.isTruthy (verdictOf s call.tag o)
  | .asked wasOpen, .close _ => m.answerClose call wasOpen o
  | .asked _, _ => m.answerOperation call o

/-- The delivery of a decided settlement hears of it. -/
def hear (m : Machine) (call : Call) : Machine × List Effect :=
  match call.phase, call.request with
  | .decided .accepted, .settle .. => m.finish call.id (.ok .undefined)
  | .decided (.refused e), .settle d .. =>
    (m.withChannel (m.channel.modifyDelivery d Delivery.restore)).finish call.id (.failed e)
  | .decided (.broke thrown), .settle .. => m.finish call.id (.threw thrown)
  | _, _ => (m, [])

/-- A message arrives: an open channel keeps it and lets its handler wait for a turn. -/
def arrive (m : Machine) (consumer : Nat) (mode : AckMode) (message : Message) :
    Machine × List Effect :=
  if m.channel.isOpen then
    ({ m with
      channel := m.channel.receive message mode
      turns := m.turns ++ [⟨m.channel.deliveries.length, consumer⟩] }, [])
  else (m, [])

/-- One step of a channel. -/
def step (m : Machine) : Event → Machine × List Effect
  | .issue id r => m.issue id r
  | .answered id o =>
    match m.call? id with
    | some call => m.answer call o
    | none => (m, [])
  | .heard id =>
    match m.call? id with
    | some call => m.hear call
    | none => (m, [])
  | .lost error =>
    let (c, said) := m.channel.lost error
    (m.withChannel c, said.map .log)
  | .arrived consumer mode message => m.arrive consumer mode message
  | .turn =>
    match m.turns with
    | [] => (m, [])
    | t :: rest => ({ m with turns := rest }, [.start t])
  | .handlerFailed d thrown =>
    match m.channel.deliveries[d]? with
    | some delivery => (m, (handlerEntries delivery.message thrown).map .log)
    | none => (m, [])
  | .cancelled consumerTag queue =>
    match cancelledEntry consumerTag queue with
    | .ok entry => (m, [.log entry])
    | .error fault => (m, [.broke fault])

/-- All steps of a run, with their effects in order. -/
def run (m : Machine) : List Event → Machine × List Effect
  | [] => (m, [])
  | e :: rest =>
    let (m, effects) := m.step e
    let (m, more) := run m rest
    (m, effects ++ more)

end Machine

/-- A channel that has just been opened. -/
def opened (id : String) : Machine := { channel := { id } }

/-- What comes of an attempt to open a channel under that identity, given how the transport ends it:
the channel, or what the caller gets instead. -/
def attempt (id : String) : Outcome → Except Answer Machine
  | .replied _ => .ok (opened id)
  | .threw thrown =>
    match Channel.openError thrown with
    | .ok e => .error (.failed e)
    | .error fault => .error (.threw fault)

end Amqp.Channel
