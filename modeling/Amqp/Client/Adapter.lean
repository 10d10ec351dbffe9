import Amqp.Channel.Request
import Amqp.Client.Properties
import Amqp.Delivery.TagMap
import Amqp.Log

/-!
# A transport channel over a client that settles messages

A client of the broker acknowledges a message by the message itself, not by its tag, and it closes a
channel without parameters. The adapter keeps the messages until they are settled and the tags of
the consumers until they are cancelled, and it carries out each primitive by one call of the client.
-/

namespace Amqp.Client

/-- The calls of a client's channel. -/
inductive Call where
  | close
  | assertQueue (name : Value) (flags : QueueFlags) (arguments : Value)
  | assertExchange (name type : Value) (flags : ExchangeFlags) (arguments : Value)
  | bindQueue (queue exchange routingKey : Value)
  | publish (exchange routingKey body properties : Value)
  | deleteQueue (queue : Value)
  | deleteExchange (exchange : Value)
  | purgeQueue (queue : Value)
  | consume (queue options : Value)
  | cancel (consumerTag : Value)
  | prefetch (count isGlobal : Value)
  | ack (message : Message) (multiple : Value)
  | nack (message : Message) (multiple requeue : Value)
  deriving Repr, Inhabited

/-- Whether the client answers a call at once. -/
def Call.isImmediate : Call → Bool
  | publish .. => true
  | ack .. => true
  | nack .. => true
  | _ => false

/-- A consumer that was asked for. -/
structure Consumer where
  mode : AckMode
  /-- The tag asked for, until the broker gives one. -/
  tag : Value
  deriving Repr, Inhabited

/-- The tag of a consumer that was started, and the number of that consumer. -/
structure Started where
  tag : Value
  consumer : Nat
  deriving Repr, Inhabited

/-- A primitive that the client has not answered. -/
structure Pending where
  id : Nat
  primitive : Channel.Primitive
  /-- The number of the consumer, for a primitive that starts one. -/
  consumer : Nat := 0
  deriving Repr, Inhabited

/-- What happens to an adapter. -/
inductive Event where
  /-- A primitive is asked for, under a number of the caller's. -/
  | issue (call : Nat) (primitive : Channel.Primitive)
  /-- The client answers the call. -/
  | answered (call : Nat) (outcome : Channel.Outcome)
  /-- The client hands a message to a consumer. -/
  | handed (consumer : Nat) (message : Message)
  /-- The client tells a consumer that the broker has cancelled it. -/
  | dropped (consumer : Nat)
  /-- Someone wants to hear of the end of the client's channel, once. -/
  | listen (listener : Nat)
  /-- The client's channel is gone. -/
  | closed (error : Option Value)
  /-- The client reports an error. -/
  | failed (error : Value)
  deriving Repr, Inhabited

/-- What an adapter does. -/
inductive Effect where
  /-- It calls the client. -/
  | ask (call : Nat) (request : Call)
  /-- The primitive is carried out, or fails. -/
  | finish (call : Nat) (outcome : Channel.Outcome)
  /-- It hands a message on. -/
  | deliver (consumer : Nat) (message : Message)
  /-- It tells that the broker has cancelled a consumer. -/
  | cancelled (consumer : Nat) (consumerTag : Value)
  /-- It tells a listener that the channel is gone. -/
  | lost (listener : Nat) (error : Option Value)
  /-- It breaks on what the client tells it. -/
  | broke (thrown : Value)
  | log (entry : LogEntry)
  deriving Repr, Inhabited

/-- The state of an adapter. -/
structure Adapter where
  /-- No message is handed on any more. -/
  detached : Bool := false
  /-- The messages that wait for a settlement. -/
  unsettled : TagMap Message := []
  /-- All consumers asked for, in order. -/
  consumers : List Consumer := []
  /-- The tags of the consumers that were started and not cancelled. -/
  tags : List Started := []
  listeners : List Nat := []
  pending : List Pending := []
  deriving Repr, Inhabited

namespace Adapter

/-- The mark in front of everything an adapter says. -/
def mark : String := "[AmqplibChannel] "

/-- The code and the reason of close parameters, as they are said. -/
def paramsText (p : Value) : Except Value String := do
  return (← (p.field "code").textOrFault) ++ " " ++ (← Channel.quoteValue (p.field "reason"))

/-- The reply code that the client sends with a close. -/
def sentCode : String := toString CloseParams.successCode

/-- What is said about a close whose code the client does not send. -/
def closeEntries : Option Value → Except Value (List LogEntry)
  | some p =>
    if (p.field "code").isEqual (.ofNat CloseParams.successCode) then .ok []
    else (paramsText p).map fun t =>
      [.say .info (mark ++ "Closing with " ++ t ++ " (sent as " ++ sentCode ++ ")")]
  | none => .ok []

/-- What is said about an abort with parameters. -/
def abortEntries : Option Value → Except Value (List LogEntry)
  | some p => (paramsText p).map fun t => [.say .info (mark ++ "Aborting with " ++ t)]
  | none => .ok []

/-- What is said about an error of the client. -/
def errorEntry (error : Value) : LogEntry :=
  ⟨.error, [.text (mark ++ "Channel error:"), messageOf error]⟩

/-- What is raised when a tag is settled that no message waits under. -/
def unknownTagFault (tag : Tag) : Value :=
  match tag.text with
  | .ok t => .error "Error" ("Unknown delivery tag " ++ t) []
  | .error fault => fault

/-- What is raised when the client takes no more messages. -/
def fullFault : Value := .error "Error" "Channel's internal buffer is full" []

/-- The adapter waiting for the client's answer. -/
def await (a : Adapter) (p : Pending) : Adapter := { a with pending := a.pending ++ [p] }

/-- Carries out a primitive by a call. -/
def ask (a : Adapter) (id : Nat) (p : Channel.Primitive) (call : Call) : Adapter × List Effect :=
  (a.await { id, primitive := p }, [.ask id call])

/-- A primitive that fails before the client is called. -/
def refuse (a : Adapter) (id : Nat) (thrown : Value) : Adapter × List Effect :=
  (a, [.finish id (.threw thrown)])

/-- Takes the message of a tag, and with `multiple` all earlier ones, for a settlement. -/
def take (a : Adapter) (id : Nat) (p : Channel.Primitive) (tag : Tag) (multiple : Value)
    (call : Message → Call) : Adapter × List Effect :=
  match a.unsettled.entry? tag with
  | none => a.refuse id (unknownTagFault tag)
  | some message =>
    let swept := a.unsettled.settle tag multiple.isTruthy
    let a := { a with unsettled := swept.kept }
    match swept.fault with
    | none => a.ask id p (call message)
    | some fault => a.refuse id fault

/-- What the client is told about a consumer with those options. -/
def clientOptions (options : Value) : Value :=
  .table [("noAck", options.field "noAck"), ("consumerTag", options.field "consumerTag"),
    ("exclusive", options.field "exclusive")]

/-- Asks for a consumer, which gets the next number. -/
def consume (a : Adapter) (id : Nat) (queue options : Value) : Adapter × List Effect :=
  match options.read "consumerTag" with
  | .error fault => a.refuse id fault
  | .ok tag =>
    let number := a.consumers.length
    let mode : AckMode := if (options.field "noAck").isTruthy then .auto else .manual
    let a := { a with consumers := a.consumers ++ [Consumer.mk mode (tag.orElse (.text ""))] }
    (a.await { id, primitive := .basicConsume queue options, consumer := number },
      [.ask id (.consume queue (clientOptions options))])

/-- Asks for a queue; without a specification the broker names it. -/
def declareQueue (a : Adapter) (id : Nat) (spec : Option Value) : Adapter × List Effect :=
  let given := spec.getD .undefined
  let name := (given.field "name").orElse (.text "")
  if given.isTruthy then
    a.ask id (.queueDeclare spec) (.assertQueue name (.ofSpec given) (given.field "arguments"))
  else a.ask id (.queueDeclare spec) (.assertQueue name .unspecified .undefined)

/-- Asks for an exchange. -/
def declareExchange (a : Adapter) (id : Nat) (spec : Value) : Adapter × List Effect :=
  match spec.read "name" with
  | .error fault => a.refuse id fault
  | .ok name =>
    a.ask id (.exchangeDeclare spec)
      (.assertExchange name (spec.field "type") (.ofSpec spec) (spec.field "arguments"))

/-- Asks the client to close its channel, once what is to be said is said. -/
def endChannel (a : Adapter) (id : Nat) (p : Channel.Primitive) :
    Except Value (List LogEntry) → Adapter × List Effect
  | .error fault => a.refuse id fault
  | .ok entries =>
    let (a, effects) := a.ask id p .close
    (a, entries.map .log ++ effects)

/-- Asks for a primitive. -/
def issue (a : Adapter) (id : Nat) : Channel.Primitive → Adapter × List Effect
  | .close params => a.endChannel id (.close params) (closeEntries (params.bind Channel.truthy?))
  | .abort params =>
    let a := { a with detached := true }
    let entries := abortEntries (params.bind Channel.truthy?)
    let a := match entries with
      | .ok _ => { a with unsettled := [] }
      | .error _ => a
    a.endChannel id (.abort params) entries
  | .queueDeclare spec => a.declareQueue id spec
  | .exchangeDeclare spec => a.declareExchange id spec
  | .queueBind queue exchange key =>
    a.ask id (.queueBind queue exchange key) (.bindQueue queue exchange key)
  | .basicPublish exchange key properties body =>
    a.ask id (.basicPublish exchange key properties body)
      (.publish exchange key body (Properties.outgoing properties))
  | .queueDelete queue => a.ask id (.queueDelete queue) (.deleteQueue queue)
  | .exchangeDelete exchange => a.ask id (.exchangeDelete exchange) (.deleteExchange exchange)
  | .queuePurge queue => a.ask id (.queuePurge queue) (.purgeQueue queue)
  | .basicConsume queue options => a.consume id queue options
  | .basicCancel tag => a.ask id (.basicCancel tag) (.cancel tag)
  | .basicQos count isGlobal => a.ask id (.basicQos count isGlobal) (.prefetch count isGlobal)
  | .basicAck tag multiple =>
    a.take id (.basicAck tag multiple) tag multiple fun m => .ack m multiple
  | .basicNack tag multiple requeue =>
    a.take id (.basicNack tag multiple requeue) tag multiple fun m => .nack m multiple requeue

/-- The tags with one more. -/
def addTag (tags : List Started) (s : Started) : List Started :=
  if tags.any (·.tag.sameKey s.tag) then tags else tags ++ [s]

/-- The tags without that of a consumer. A tag that is like no other is told by its consumer. -/
def dropConsumer (tags : List Started) (s : Started) : List Started :=
  tags.filter fun t =>
    !(t.tag.sameKey s.tag || (t.consumer == s.consumer && !s.tag.sameKey s.tag))

/-- The fields of that name of a reply. -/
def replyFields (reply : Value) (names : List String) : Except Value Value :=
  (names.mapM fun n => (reply.read n).map fun v => (n, v)).map .table

/-- The consumer with that number is known by the tag that the broker gave it. -/
def started (a : Adapter) (consumer : Nat) (tag : Value) : Adapter :=
  { a with
    consumers := a.consumers.modify consumer fun c => { c with tag }
    tags := addTag a.tags ⟨tag, consumer⟩ }

/-- What the client's reply to a primitive means. -/
def accept (a : Adapter) (p : Pending) (reply : Value) : Adapter × Except Value Value :=
  match p.primitive with
  | .close _ => ({ a with unsettled := [] }, .ok .undefined)
  | .queueDeclare _ => (a, replyFields reply ["queue", "messageCount", "consumerCount"])
  | .queuePurge _ => (a, replyFields reply ["messageCount"])
  | .basicPublish .. => (a, if reply.isTruthy then .ok .undefined else .error fullFault)
  | .basicCancel tag =>
    ({ a with tags := a.tags.filter fun t => !t.tag.sameKey tag }, .ok .undefined)
  | .basicConsume .. =>
    match reply.read "consumerTag" with
    | .ok tag => (a.started p.consumer tag, .ok tag)
    | r => (a, r)
  | _ => (a, .ok .undefined)

/-- The client answers a primitive. -/
def answer (a : Adapter) (p : Pending) : Channel.Outcome → Adapter × List Effect
  | .threw thrown => (a, [.finish p.id (.threw thrown)])
  | .replied reply =>
    match a.accept p reply with
    | (a, .ok v) => (a, [.finish p.id (.replied v)])
    | (a, .error thrown) => (a, [.finish p.id (.threw thrown)])

/-- A message is handed to a consumer. -/
def hand (a : Adapter) (consumer : Nat) (message : Message) : Adapter × List Effect :=
  match a.consumers[consumer]? with
  | none => (a, [])
  | some c =>
    if a.detached then (a, [])
    else
      let unsettled := match c.mode with
        | .manual => a.unsettled.track message.tag message
        | .auto => a.unsettled
      ({ a with unsettled },
        [match Properties.incoming message.properties with
          | .ok properties => .deliver consumer { message with properties }
          | .error fault => .broke fault])

/-- One step of an adapter. -/
def step (a : Adapter) : Event → Adapter × List Effect
  | .issue id p => a.issue id p
  | .answered id outcome =>
    match a.pending.find? (·.id == id) with
    | some p => { a with pending := a.pending.filter (·.id != id) }.answer p outcome
    | none => (a, [])
  | .handed consumer message => a.hand consumer message
  | .dropped consumer =>
    match a.consumers[consumer]? with
    | some c =>
      ({ a with tags := dropConsumer a.tags ⟨c.tag, consumer⟩ }, [.cancelled consumer c.tag])
    | none => (a, [])
  | .listen listener => ({ a with listeners := a.listeners ++ [listener] }, [])
  | .closed error => ({ a with listeners := [] }, a.listeners.map fun l => .lost l error)
  | .failed error =>
    if error.isGiven then (a, [.log (errorEntry error)])
    else (a, [.broke (missingFieldFault error "message")])

/-- All steps of a run, with their effects in order. -/
def run (a : Adapter) : List Event → Adapter × List Effect
  | [] => (a, [])
  | e :: rest =>
    let (a, effects) := a.step e
    let (a, more) := a.run rest
    (a, effects ++ more)

end Adapter

end Amqp.Client
