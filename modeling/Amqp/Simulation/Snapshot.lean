import Amqp.Broker.Machine

/-!
# Snapshots of a broker

What can be seen of a broker from outside, as a table.
-/

namespace Amqp.Simulation

/-- A ready copy. -/
def copyValue (c : Broker.Copy) : Value :=
  .table [("exchange", c.exchange), ("key", c.routingKey), ("body", .bytes c.body),
    ("properties", c.properties), ("redelivered", .bool c.redelivered)]

/-- A queue with its ready copies and the tags of its consumers. -/
def queueValue (q : Broker.Queue) : Value :=
  .table [("name", q.name), ("durable", q.flags.durable),
    ("exclusive", q.flags.exclusive), ("autoDelete", q.flags.autoDelete),
    ("messages", .list (q.messages.map copyValue)),
    ("consumers", .list (q.consumers.map (·.tag)))]

/-- A binding. -/
def bindingValue (b : Broker.Binding) : Value :=
  .table [("queue", b.queue), ("key", b.key)]

/-- An exchange with its bindings. -/
def exchangeValue (e : Broker.Exchange) : Value :=
  .table [("name", e.name), ("type", e.type.toValue), ("durable", e.durable),
    ("bindings", .list (e.bindings.map bindingValue))]

/-- A channel. -/
def channelValue (c : Broker.Channel) : Value :=
  .table [("calls", .list (c.calls.map .text)), ("prefetch", c.prefetch),
    ("closed", .bool c.closed), ("unacked", .ofNat c.unacked.length)]

/-- Everything that can be seen of a broker. -/
def snapshot (b : Broker) : Value :=
  .table [("queues", .list (b.queues.map queueValue)),
    ("exchanges", .list (b.exchanges.map exchangeValue)),
    ("channels", .list (b.channels.map channelValue))]

end Amqp.Simulation
