import Amqp.Delivery.Tag
import Amqp.Error.Delivery
import Amqp.Payload

/-!
# Deliveries

A delivery is a message handed to a consumer, with the state of its acknowledgement. A settlement
first claims the delivery and only then asks the channel, so that a second settlement finds it
claimed; if the channel refuses, the delivery is given back.
-/

namespace Amqp

/-- Who acknowledges: the broker on delivery, or the consumer. -/
inductive AckMode where
  | auto
  | manual
  deriving DecidableEq, Repr, Inhabited

/-- The word for a mode. -/
def AckMode.word : AckMode → String
  | auto => "auto"
  | manual => "manual"

/-- A message as it is handed over. Its tags, names and marks are kept as they came. -/
structure Message where
  tag : Tag
  consumerTag : Value
  exchange : Value
  routingKey : Value
  /-- The message has been handed over before. -/
  redelivered : Value
  body : Payload
  properties : Value
  deriving Repr, Inhabited

/-- A message and the state of its acknowledgement. -/
structure Delivery where
  message : Message
  mode : AckMode
  state : DeliveryState := .unacknowledged
  deriving Repr, Inhabited

/-- What comes of the attempt to settle a delivery. -/
inductive Claim where
  /-- The delivery is misused. -/
  | refused (fault : DeliveryFault)
  /-- The delivery is settled without anyone being asked. -/
  | settled
  /-- The channel has to be asked to settle the tag. -/
  | asks (tag : Nat)
  deriving Repr

namespace Delivery

/-- The tag of a delivery, which has to be assigned. -/
def tag (d : Delivery) : Except DeliveryFault Nat :=
  match d.message.tag.number? with
  | some n => .ok n
  | none => .error .noTag

/-- Claims a delivery for a settlement. -/
def claim (d : Delivery) (s : Settlement) : Claim × Delivery :=
  match d.tag with
  | .error fault => (.refused fault, d)
  | .ok n =>
    if d.state = .unacknowledged then
      match d.mode with
      | .auto => (.settled, { d with state := s.state })
      | .manual => (.asks n, { d with state := s.state })
    else (.refused (.settled n d.state), d)

/-- The delivery after its settlement was refused. -/
def restore (d : Delivery) : Delivery := { d with state := .unacknowledged }

/-- The delivery after a later one was settled together with all earlier ones. -/
def markSettled (d : Delivery) (s : Settlement) : Delivery :=
  if d.state = .unacknowledged then { d with state := s.state } else d

end Delivery

end Amqp
