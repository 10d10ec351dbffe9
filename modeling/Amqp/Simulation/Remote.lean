import Amqp.Client.Adapter
import Amqp.Simulation.Script

/-!
# The scripted remote

What a remote records of the calls it gets, and what it replies if the script says nothing else.
There are two remotes: a transport's channel, which gets primitives, and a client's channel, which
gets the client's calls.
-/

namespace Amqp.Simulation

/-- What is recorded of a primitive: its name and its arguments. -/
def primitiveRecord : Channel.Primitive → String × List Value
  | .close p => ("close", p.toList)
  | .abort p => ("abort", p.toList)
  | .queueDeclare spec => ("queueDeclare", spec.toList)
  | .exchangeDeclare spec => ("exchangeDeclare", [spec])
  | .queueBind queue exchange key => ("queueBind", [queue, exchange, key])
  | .basicPublish exchange key properties body =>
    ("basicPublish", [exchange, key, properties, body])
  | .queueDelete queue => ("queueDelete", [queue])
  | .exchangeDelete exchange => ("exchangeDelete", [exchange])
  | .queuePurge queue => ("queuePurge", [queue])
  | .basicConsume queue options => ("basicConsume", [queue, options])
  | .basicCancel tag => ("basicCancel", [tag])
  | .basicQos count isGlobal => ("basicQos", [count, isGlobal])
  | .basicAck tag multiple => ("basicAck", [tag.toValue, multiple])
  | .basicNack tag multiple requeue => ("basicNack", [tag.toValue, multiple, requeue])

/-- The flags of a queue and its arguments, as a table. -/
def queueFlagsValue (f : QueueFlags) (arguments : Value) : Value :=
  .table [("durable", f.durable), ("exclusive", f.exclusive), ("autoDelete", f.autoDelete),
    ("arguments", arguments)]

/-- The flags of an exchange and its arguments, as a table. -/
def exchangeFlagsValue (f : ExchangeFlags) (arguments : Value) : Value :=
  .table [("durable", f.durable), ("autoDelete", f.autoDelete), ("arguments", arguments)]

/-- What is recorded of a client's call. A message is recorded as its tag. -/
def clientRecord : Client.Call → String × List Value
  | .close => ("close", [])
  | .assertQueue name flags arguments => ("assertQueue", [name, queueFlagsValue flags arguments])
  | .assertExchange name type flags arguments =>
    ("assertExchange", [name, type, exchangeFlagsValue flags arguments])
  | .bindQueue queue exchange key => ("bindQueue", [queue, exchange, key])
  | .publish exchange key body properties => ("publish", [exchange, key, body, properties])
  | .deleteQueue queue => ("deleteQueue", [queue])
  | .deleteExchange exchange => ("deleteExchange", [exchange])
  | .purgeQueue queue => ("purgeQueue", [queue])
  | .consume queue options => ("consume", [queue, options])
  | .cancel tag => ("cancel", [tag])
  | .prefetch count isGlobal => ("prefetch", [count, isGlobal])
  | .ack message multiple => ("ack", [message.tag.toValue, multiple])
  | .nack message multiple requeue => ("nack", [message.tag.toValue, multiple, requeue])

/-- The neutral reply to a declaration of a queue. -/
def neutralQueue : Value :=
  .table [("queue", .text "amq.gen-test"), ("messageCount", .ofNat 0), ("consumerCount", .ofNat 0)]

/-- The neutral reply to a purge. -/
def neutralPurge : Value := .table [("messageCount", .ofNat 0)]

/-- The tag that a remote gives to the consumer with that number, the first one being 1. -/
def neutralTag (options : Value) (number : Nat) : Value :=
  (options.field "consumerTag").orElse (.text ("ctag-" ++ toString number))

/-- The neutral reply of a transport's channel, if remotes have been asked for so many consumers. -/
def primitiveReply (consumers : Nat) : Channel.Primitive → Value
  | .queueDeclare _ => neutralQueue
  | .queuePurge _ => neutralPurge
  | .basicConsume _ options => neutralTag options consumers
  | _ => .undefined

/-- The neutral reply of a client's channel, if remotes have been asked for so many consumers. -/
def clientReply (consumers : Nat) : Client.Call → Value
  | .assertQueue .. => neutralQueue
  | .purgeQueue _ => neutralPurge
  | .consume _ options => .table [("consumerTag", neutralTag options consumers)]
  | .publish .. => .bool true
  | .ack .. => .undefined
  | .nack .. => .undefined
  | _ => .table []

/-- How a call ends, given the neutral reply; a call that is held has no outcome. -/
def outcomeOf (neutral : Value) : Ending → Option Channel.Outcome
  | .neutral => some (.replied neutral)
  | .reply v => some (.replied v)
  | .throws v => some (.threw v)
  | .throwsAtOnce v => some (.threw v)
  | .held _ => none

/-- How a call ends that has to be answered at once: it cannot be held. -/
def immediateOutcome (neutral : Value) (e : Ending) : Channel.Outcome :=
  (outcomeOf neutral e).getD (.replied neutral)

/-- A call of that name, as it is recorded. -/
def recordOf (remote : Nat) (r : String × List Value) : CallRecord := ⟨some remote, r.1, r.2⟩

end Amqp.Simulation
