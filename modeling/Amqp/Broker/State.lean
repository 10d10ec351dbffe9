import Amqp.Channel.Request
import Amqp.Topology

/-!
# The state of a broker

Queues with the messages that are ready and the consumers they are served to, exchanges with their
bindings, and channels with what they have not settled. Every copy of a message has a serial number
of its own, and so has every queue: a queue declared under an old name is another queue.
-/

namespace Amqp

namespace Broker

/-- A copy of a message: on one queue, or handed out and not settled. -/
structure Copy where
  serial : Nat
  exchange : Value
  routingKey : Value
  properties : Value
  body : Payload
  /-- The copy has been handed out before. -/
  redelivered : Bool := false
  deriving Repr, Inhabited

/-- A consumer of a queue. -/
structure Consumer where
  /-- The number that the caller knows it by. -/
  number : Nat
  tag : Value
  channel : Nat
  mode : AckMode
  deriving Repr, Inhabited

/-- A queue. -/
structure Queue where
  /-- Told apart from every other queue, also from those of the same name. -/
  id : Nat
  name : Value
  flags : QueueFlags
  /-- The copies that are ready, first one first. -/
  messages : List Copy := []
  consumers : List Consumer := []
  deriving Repr, Inhabited

/-- A queue that an exchange routes to, and the key it does so for. -/
structure Binding where
  queue : Value
  key : Value
  deriving Repr, Inhabited

/-- An exchange. -/
structure Exchange where
  name : Value
  type : ExchangeType
  durable : Value
  bindings : List Binding := []
  deriving Repr, Inhabited

/-- A copy that was handed out, and the name and number of the queue it came from. -/
structure Unacked where
  queue : Value
  origin : Nat
  copy : Copy
  deriving Repr, Inhabited

/-- A consumer that a channel has started, and the name of its queue. -/
structure Registered where
  tag : Value
  queue : Value
  /-- The number that the caller knows it by. -/
  number : Nat
  deriving Repr, Inhabited

/-- A channel. -/
structure Channel where
  /-- Every close and abort that was asked for. -/
  calls : List String := []
  prefetch : Value := .ofNat 0
  closed : Bool := false
  nextTag : Nat := 1
  /-- The consumers that were started, one for each tag. -/
  consumers : List Registered := []
  /-- The copies that wait for a settlement, by tag. -/
  unacked : List (Nat × Unacked) := []
  deriving Repr, Inhabited

end Broker

/-- A broker. -/
structure Broker where
  queues : List Broker.Queue := []
  exchanges : List Broker.Exchange := []
  channels : List Broker.Channel := []
  /-- The queues that are to be served, first one first. -/
  scheduled : List Nat := []
  /-- How many messages have been handed out. -/
  turns : Nat := 0
  /-- What the next attempt to open a channel fails with. -/
  refusal : Option Value := none
  /-- How many identities have been given out. -/
  issued : Nat := 0
  /-- How many queues there have been. -/
  declared : Nat := 0
  /-- How many copies there have been. -/
  copied : Nat := 0
  deriving Repr, Inhabited

namespace Broker

/-- Why the broker refuses an operation. -/
inductive Fault where
  | noQueue (name : Value)
  | noExchange (name : Value)
  /-- The queue exists with other flags. -/
  | unequalQueue (name : Value)
  /-- The exchange exists with another type or durability. -/
  | unequalExchange (name : Value)
  /-- The name belongs to the broker. -/
  | reservedName (name : String)
  | unknownTag (tag : Tag)
  | channelClosed
  /-- A value that has to be a text, or to have one, is none. -/
  | noText (thrown : Value)
  deriving Repr, Inhabited

/-- The reply code of a refusal. -/
def Fault.code? : Fault → Option Nat
  | noQueue _ => some 404
  | noExchange _ => some 404
  | unequalQueue _ => some 406
  | unequalExchange _ => some 406
  | reservedName _ => some 403
  | unknownTag _ => some 406
  | channelClosed => none
  | noText _ => none

/-- The wording of a refusal. -/
def Fault.message : Fault → Except Value String
  | noQueue name =>
    name.textOrFault.map fun t => "NOT_FOUND - no queue '" ++ t ++ "' in vhost '/'"
  | noExchange name =>
    name.textOrFault.map fun t => "NOT_FOUND - no exchange '" ++ t ++ "' in vhost '/'"
  | unequalQueue name =>
    name.textOrFault.map fun t =>
      "PRECONDITION_FAILED - inequivalent arg for queue '" ++ t ++ "' in vhost '/'"
  | unequalExchange name =>
    name.textOrFault.map fun t =>
      "PRECONDITION_FAILED - inequivalent arg 'type' for exchange '" ++ t ++ "'"
  | reservedName name =>
    .ok ("ACCESS_REFUSED - exchange name '" ++ name ++ "' contains reserved prefix 'amq.*'")
  | unknownTag tag => tag.text.map ("PRECONDITION_FAILED - unknown delivery tag " ++ ·)
  | channelClosed => .ok "Channel closed"
  | noText thrown => .error thrown

/-- What is raised for a refusal. -/
def Fault.thrown (f : Fault) : Value :=
  match f.message with
  | .ok message => .error "Error" message (f.code?.map fun c => ("code", .ofNat c)).toList
  | .error thrown => thrown

/-- The digits of a natural in base sixteen, at least as many as asked for. -/
def hexDigits (width n : Nat) : String :=
  let digits := Nat.toDigits 16 n
  String.ofList (List.replicate (width - digits.length) '0' ++ digits)

/-- The identity with that number. -/
def identity (n : Nat) : String := "00000000-0000-4000-8000-" ++ hexDigits 12 n

/-- The next identity. -/
def nextIdentity (b : Broker) : String := identity (b.issued + 1)

/-- The broker after it has given out the next identity. -/
def issue (b : Broker) : Broker := { b with issued := b.issued + 1 }

/-- The queue of that name. -/
def queue? (b : Broker) (name : Value) : Option Queue := b.queues.find? (·.name.sameKey name)

/-- The queue with that number, if it still exists. -/
def queueById? (b : Broker) (id : Nat) : Option Queue := b.queues.find? (·.id == id)

/-- The exchange of that name. -/
def exchange? (b : Broker) (name : Value) : Option Exchange :=
  b.exchanges.find? (·.name.sameKey name)

/-- The queue of that name, which has to exist. -/
def queue (b : Broker) (name : Value) : Except Fault Queue :=
  match b.queue? name with
  | some q => .ok q
  | none => .error (.noQueue name)

/-- The exchange of that name, which has to exist. -/
def exchange (b : Broker) (name : Value) : Except Fault Exchange :=
  match b.exchange? name with
  | some e => .ok e
  | none => .error (.noExchange name)

/-- The broker with a queue changed. -/
def modifyQueue (b : Broker) (id : Nat) (f : Queue → Queue) : Broker :=
  { b with queues := b.queues.map fun q => if q.id = id then f q else q }

/-- The broker with a channel changed. -/
def modifyChannel (b : Broker) (ch : Nat) (f : Channel → Channel) : Broker :=
  { b with channels := b.channels.modify ch f }

/-- The broker without the queue of that number. -/
def removeQueue (b : Broker) (id : Nat) : Broker :=
  { b with queues := b.queues.filter (·.id != id) }

/-- The broker with a queue that is to be served. -/
def schedule (b : Broker) (id : Nat) : Broker := { b with scheduled := b.scheduled ++ [id] }

/-- The channel with that number, if it is open. -/
def openChannel (b : Broker) (ch : Nat) : Except Fault Channel :=
  match b.channels[ch]? with
  | some c => if c.closed then .error .channelClosed else .ok c
  | none => .error .channelClosed

end Broker

end Amqp
