import Amqp.Broker.Routing

/-!
# The operations of a broker

Each primitive of a channel is carried out at once, and it may schedule queues to be served. Serving
a queue hands its messages to its consumers in turn. A channel that ends gives back what it has not
settled.
-/

namespace Amqp.Broker

/-- What a broker tells the users of its channels. -/
inductive Effect where
  /-- It hands a message to a consumer. -/
  | deliver (channel consumer : Nat) (message : Message)
  /-- It has cancelled a consumer. -/
  | cancelled (channel consumer : Nat) (consumerTag : Value)
  /-- It has ended a channel. -/
  | lost (channel : Nat) (error : Option Value)
  deriving Repr, Inhabited

/-- What happens to a broker. -/
inductive Event where
  | openChannel
  /-- A channel is asked for a primitive, under a number of the caller's. -/
  | request (channel number : Nat) (primitive : Amqp.Channel.Primitive)
  /-- The next scheduled queue is served. -/
  | serve
  /-- The connection of all channels drops. -/
  | disconnect (error : Value)
  /-- The next attempt to open a channel is to fail. -/
  | refuseNext (error : Value)
  deriving Repr, Inhabited

/-- What comes of an event. -/
structure Response where
  broker : Broker
  outcome : Amqp.Channel.Outcome := .replied .undefined
  effects : List Effect := []
  deriving Repr, Inhabited

/-! ## Consumers and copies -/

/-- Takes the consumers with the tag of a registered one off its queue; a queue that is to be
deleted with its last consumer goes once it has none. -/
def removeConsumer (b : Broker) (r : Registered) : Broker :=
  match b.queue? r.queue with
  | none => b
  | some q =>
    let rest := q.consumers.filter fun s => !(s.tag.isEqual r.tag || s.number == r.number)
    if q.flags.autoDelete.isTruthy && rest.isEmpty then b.removeQueue q.id
    else b.modifyQueue q.id fun q => { q with consumers := rest }

/-- Puts a copy back at the head of its queue, if there is one, which is then to be served. -/
def giveBack (b : Broker) (u : Unacked) : Broker :=
  match (b.queue? u.queue).orElse fun _ => b.queueById? u.origin with
  | none => b
  | some q =>
    (b.modifyQueue q.id fun q =>
      { q with messages := { u.copy with redelivered := true } :: q.messages }).schedule q.id

/-- Puts copies back, one after the other. -/
def requeue (b : Broker) (us : List Unacked) : Broker := us.foldl giveBack b

/-- Takes the copy of a tag, and with `multiple` all earlier ones, off a channel. -/
def settle (b : Broker) (ch : Nat) (tag : Tag) (multiple : Bool) :
    Except Fault (Broker × List Unacked) := do
  let c ← b.openChannel ch
  match tag.number?.bind fun n => c.unacked.find? (·.1 == n) with
  | none => .error (.unknownTag tag)
  | some (n, entry) =>
    let rest := c.unacked.filter (·.1 != n)
    if multiple then
      .ok (b.modifyChannel ch fun c => { c with unacked := rest.filter fun e => !(e.1 < n) },
        entry :: (rest.filter (·.1 < n)).map (·.2))
    else .ok (b.modifyChannel ch fun c => { c with unacked := rest }, [entry])

/-- Ends a channel: its consumers go, and what it has not settled is put back. -/
def terminate (b : Broker) (ch : Nat) (error : Option Value) : Broker × List Effect :=
  match b.openChannel ch with
  | .error _ => (b, [])
  | .ok c =>
    let b := b.modifyChannel ch fun c => { c with closed := true, consumers := [], unacked := [] }
    let b := c.consumers.foldl removeConsumer b
    (b.requeue (c.unacked.map (·.2)), [.lost ch error])

/-! ## Primitives -/

/-- The text that records a close or an abort. -/
def callText (verb : String) : Option Value → Except Value String
  | some p => do
    return verb ++ "(" ++ (← (p.field "code").textOrFault) ++ ", " ++
      (← Amqp.Channel.quoteValue (p.field "reason")) ++ ")"
  | none => .ok (verb ++ "()")

/-- The reply to a declaration. -/
def declarationReply (name : Value) (messages consumers : Nat) : Value :=
  .table [("queue", name), ("messageCount", .ofNat messages),
    ("consumerCount", .ofNat consumers)]

/-- Carries out what changes nothing if it is refused. -/
def attempt (b : Broker) (r : Except Fault (Broker × Value)) : Response :=
  match r with
  | .ok (b, reply) => { broker := b, outcome := .replied reply }
  | .error f => { broker := b, outcome := .threw f.thrown }

/-- Ends a channel at its own request. -/
def endChannel (b : Broker) (ch : Nat) (verb : String) (params : Option Value) : Response :=
  match callText verb params with
  | .error thrown => { broker := b, outcome := .threw thrown }
  | .ok text =>
    let b := b.modifyChannel ch fun c => { c with calls := c.calls ++ [text] }
    match b.openChannel ch with
    | .error f => { broker := b, outcome := .threw f.thrown }
    | .ok _ =>
      let (b, effects) := b.terminate ch none
      { broker := b, effects }

/-- Declares a queue; one that exists has to have the same flags. -/
def declareQueue (b : Broker) (name : Value) (flags : QueueFlags) :
    Except Fault (Broker × Value) :=
  match b.queue? name with
  | some q =>
    if q.flags.isEqual flags then
      .ok (b, declarationReply name q.messages.length q.consumers.length)
    else .error (.unequalQueue name)
  | none =>
    .ok ({ b with
        queues := b.queues ++ [{ id := b.declared, name, flags }]
        declared := b.declared + 1 },
      declarationReply name 0 0)

/-- Declares the queue that a caller asks for; an empty name stands for a new one. -/
def declareQueueSpec (b : Broker) (spec : Option Value) : Response :=
  let name := (spec.getD .undefined).field "name"
  let flags := (spec.map QueueFlags.ofSpec).getD .unspecified
  if name.isTruthy then b.attempt (b.declareQueue name flags)
  else b.issue.attempt (b.issue.declareQueue (.text ("amq.gen-" ++ b.nextIdentity)) flags)

/-- The start of the names that belong to the broker. -/
def reservedStart : String := "amq."

/-- The name of an exchange that is to be declared, which has to be a text. -/
def exchangeText : Value → Except Value String
  | .text s => .ok s
  | v => .error (missingOperationFault "spec.name" v "startsWith")

/-- Declares an exchange; one that exists has to have the same type and durability. -/
def declareExchange (b : Broker) (spec : Value) : Except Fault (Broker × Value) := do
  let name := spec.field "name"
  let text ← (exchangeText name).mapError .noText
  let type := ExchangeType.ofValue (spec.field "type")
  let durable := (ExchangeFlags.ofSpec spec).durable
  if reservedStart.toList.isPrefixOf text.toList then .error (.reservedName text)
  else
    match b.exchange? name with
    | some e =>
      if e.type.toValue.isEqual type.toValue && e.durable.isEqual durable then .ok (b, .undefined)
      else .error (.unequalExchange name)
    | none =>
      .ok ({ b with exchanges := b.exchanges ++ [⟨name, type, durable, []⟩] }, .undefined)

/-- Binds a queue to an exchange. -/
def bind (b : Broker) (queueName exchangeName key : Value) : Except Fault (Broker × Value) := do
  let _ ← b.queue queueName
  let _ ← b.exchange exchangeName
  .ok ({ b with
      exchanges := b.exchanges.map fun e =>
        if e.name.sameKey exchangeName then { e with bindings := e.bindings ++ [⟨queueName, key⟩] }
        else e },
    .undefined)

/-- Drops all messages that are ready on a queue. -/
def purge (b : Broker) (queueName : Value) : Except Fault (Broker × Value) := do
  let q ← b.queue queueName
  .ok (b.modifyQueue q.id fun q => { q with messages := [] },
    .table [("messageCount", .ofNat q.messages.length)])

/-- Deletes an exchange with its bindings. -/
def deleteExchange (b : Broker) (name : Value) : Except Fault (Broker × Value) := do
  let _ ← b.exchange name
  .ok ({ b with exchanges := b.exchanges.filter (!·.name.sameKey name) }, .undefined)

/-- A channel forgets a consumer. -/
def forget (b : Broker) (s : Consumer) : Broker :=
  b.modifyChannel s.channel fun c =>
    { c with consumers := c.consumers.filter fun r =>
        !(r.tag.sameKey s.tag || r.number == s.number) }

/-- The consumers that hear of the end of their queue: all, or those before the first one whose tag
has no text, for telling that one breaks off. -/
def told (consumers : List Consumer) : List Consumer :=
  consumers.takeWhile fun s => s.tag.text?.isSome

/-- Deletes a queue with its messages; its consumers hear of it. -/
def deleteQueue (b : Broker) (name : Value) : Response :=
  match b.queue name with
  | .error f => { broker := b, outcome := .threw f.thrown }
  | .ok q =>
    let told := told q.consumers
    { broker := (q.consumers.take (told.length + 1)).foldl forget (b.removeQueue q.id)
      outcome := if told.length < q.consumers.length then .threw noTextFault
        else .replied .undefined
      effects := told.map fun s => .cancelled s.channel s.number s.tag }

/-- The registry with one more consumer; one with the same tag gives up its place to it. -/
def register (r : Registered) : List Registered → List Registered
  | [] => [r]
  | s :: rest => if s.tag.sameKey r.tag then r :: rest else s :: register r rest

/-- Starts a consumer, which gets a tag if it does not bring one. -/
def consume (b : Broker) (ch number : Nat) (queueName options : Value) :
    Except Fault (Broker × Value) := do
  let q ← b.queue queueName
  let asked := options.field "consumerTag"
  let (b, tag) := if asked.isTruthy then (b, asked)
    else (b.issue, .text ("amq.ctag-" ++ b.nextIdentity))
  let mode : AckMode := if (options.field "noAck").isTruthy then .auto else .manual
  let b := b.modifyQueue q.id fun q =>
    { q with consumers := q.consumers ++ [⟨number, tag, ch, mode⟩] }
  let b := b.modifyChannel ch fun c =>
    { c with consumers := register ⟨tag, queueName, number⟩ c.consumers }
  .ok (b.schedule q.id, tag)

/-- Cancels the consumer of a tag, if the channel has one. -/
def cancel (b : Broker) (ch : Nat) (c : Channel) (tag : Value) : Broker :=
  match c.consumers.find? (·.tag.sameKey tag) with
  | some r =>
    let b := b.modifyChannel ch fun c =>
      { c with consumers := c.consumers.filter (!·.tag.sameKey tag) }
    b.removeConsumer r
  | none => b

/-- The bytes that a body is. -/
def bytesOf : Value → Payload
  | .bytes bs => bs
  | _ => []

/-- Publishes a message. -/
def publish (b : Broker) (exchangeName key properties body : Value) : Response :=
  match b.route ⟨0, exchangeName, key, properties, bytesOf body, false⟩ with
  | (b, .ok ()) => { broker := b }
  | (b, .error f) => { broker := b, outcome := .threw f.thrown }

/-- Carries out a primitive of an open channel. -/
def perform (b : Broker) (ch number : Nat) (c : Channel) : Amqp.Channel.Primitive → Response
  | .close params => b.endChannel ch "close" params
  | .abort params => b.endChannel ch "abort" params
  | .queueDeclare spec => b.declareQueueSpec spec
  | .exchangeDeclare spec => b.attempt (b.declareExchange spec)
  | .queueBind queueName exchangeName key => b.attempt (b.bind queueName exchangeName key)
  | .basicPublish exchangeName key properties body => b.publish exchangeName key properties body
  | .queueDelete name => b.deleteQueue name
  | .exchangeDelete name => b.attempt (b.deleteExchange name)
  | .queuePurge name => b.attempt (b.purge name)
  | .basicConsume queueName options => b.attempt (b.consume ch number queueName options)
  | .basicCancel tag => { broker := b.cancel ch c tag }
  | .basicQos count _ => { broker := b.modifyChannel ch fun c => { c with prefetch := count } }
  | .basicAck tag multiple =>
    b.attempt ((b.settle ch tag multiple.isTruthy).map fun (b, _) => (b, .undefined))
  | .basicNack tag multiple requeue =>
    b.attempt ((b.settle ch tag multiple.isTruthy).map fun (b, us) =>
      (if requeue.isTruthy then b.requeue us else b, .undefined))

/-- A channel is asked for a primitive. A closed one only records that it is to be closed. -/
def request (b : Broker) (ch number : Nat) (p : Amqp.Channel.Primitive) : Response :=
  match b.openChannel ch, p with
  | .ok c, p => b.perform ch number c p
  | .error _, .close params => b.endChannel ch "close" params
  | .error _, .abort params => b.endChannel ch "abort" params
  | .error f, _ => { broker := b, outcome := .threw f.thrown }

/-! ## Serving queues -/

/-- The message that a copy is handed over as. -/
def Copy.message (c : Copy) (tag : Nat) (consumerTag : Value) : Message where
  tag := .assigned tag
  consumerTag := consumerTag
  exchange := c.exchange
  routingKey := c.routingKey
  redelivered := .bool c.redelivered
  body := c.body
  properties := c.properties

/-- Hands the first copy of a queue to the consumer whose turn it is. -/
def handOut? (b : Broker) (id : Nat) : Option (Broker × Effect) := do
  let q ← b.queueById? id
  let copy ← q.messages.head?
  let consumer ← q.consumers[b.turns % q.consumers.length]?
  let c ← b.channels[consumer.channel]?
  let b := { b with turns := b.turns + 1 }.modifyQueue id fun q =>
    { q with messages := q.messages.tail }
  let b := b.modifyChannel consumer.channel fun c =>
    { c with
      nextTag := c.nextTag + 1
      unacked := match consumer.mode with
        | .manual => c.unacked ++ [(c.nextTag, ⟨q.name, q.id, copy⟩)]
        | .auto => c.unacked }
  some (b, .deliver consumer.channel consumer.number (copy.message c.nextTag consumer.tag))

/-- Hands out copies of a queue, at most as many as the bound says. -/
def handOut (b : Broker) (id : Nat) : Nat → Broker × List Effect
  | 0 => (b, [])
  | bound + 1 =>
    match b.handOut? id with
    | none => (b, [])
    | some (b, effect) =>
      let (b, effects) := b.handOut id bound
      (b, effect :: effects)

/-- Serves the next scheduled queue, as long as it has messages and consumers. -/
def serve (b : Broker) : Broker × List Effect :=
  match b.scheduled with
  | [] => (b, [])
  | id :: rest =>
    let b := { b with scheduled := rest }
    match b.queueById? id with
    | none => (b, [])
    | some q => b.handOut id q.messages.length

/-! ## Steps -/

/-- Opens a channel, which gets the next number, unless that is to fail. -/
def openNext (b : Broker) : Response :=
  match b.refusal with
  | some error => { broker := { b with refusal := none }, outcome := .threw error }
  | none => { broker := { b with channels := b.channels ++ [{}] } }

/-- Ends all channels, one after the other. -/
def disconnect (b : Broker) (error : Value) : Broker × List Effect :=
  (List.range b.channels.length).foldl
    (fun (b, effects) ch =>
      let (b, more) := b.terminate ch (some error)
      (b, effects ++ more))
    (b, [])

/-- One step of a broker. -/
def step (b : Broker) : Event → Response
  | .openChannel => b.openNext
  | .request ch number p => b.request ch number p
  | .serve =>
    let (b, effects) := b.serve
    { broker := b, effects }
  | .disconnect error =>
    let (b, effects) := b.disconnect error
    { broker := b, effects }
  | .refuseNext error =>
    { broker := { b with refusal := if error.isTruthy then some error else none } }

/-- The broker after all events of a run. -/
def run (b : Broker) (events : List Event) : Broker :=
  events.foldl (fun b e => (b.step e).broker) b

end Amqp.Broker
