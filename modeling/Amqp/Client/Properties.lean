import Amqp.Text.Units
import Amqp.Value

/-!
# Message properties

A message carries up to thirteen properties, each of a type of its own. What a peer sends in their
place may be anything; a property is taken only if it has its type.
-/

namespace Amqp

/-- Whether a broker keeps a message across a restart. -/
inductive DeliveryMode where
  | transient
  | persistent
  deriving DecidableEq, Repr

/-- The number for a delivery mode. -/
def DeliveryMode.number : DeliveryMode → Number
  | transient => .ofNat 1
  | persistent => .ofNat 2

/-- The delivery mode with that number. -/
def DeliveryMode.ofNumber? (n : Number) : Option DeliveryMode :=
  [transient, persistent].find? (·.number == n)

/-- The properties of a message. -/
structure Properties where
  contentType : Option String := none
  contentEncoding : Option String := none
  correlationId : Option String := none
  replyTo : Option String := none
  expiration : Option String := none
  messageId : Option String := none
  type : Option String := none
  userId : Option String := none
  appId : Option String := none
  headers : Option (List (String × Value)) := none
  deliveryMode : Option DeliveryMode := none
  priority : Option Number := none
  timestamp : Option Number := none
  deriving Repr, Inhabited

namespace Value

/-- The elements of a list as fields named by their positions. -/
def positional (start : Nat) : List Value → List (String × Value)
  | [] => []
  | x :: xs => (toString start, x) :: positional (start + 1) xs

/-- The entries of a value with parts. -/
def entries? : Value → Option (List (String × Value))
  | table fields => some fields
  | error _ _ fields => some fields
  | list xs => some (positional 0 xs)
  | bytes bs => some (positional 0 (bs.map fun b => ofNat b.toNat))
  | _ => none

/-- What a copy of a value's own fields holds: its entries, or the units of a text. -/
def ownFields : Value → List (String × Value)
  | text s => positional 0 ((Text.units s).map fun u => text (Text.ofUnits [u]))
  | v => v.entries?.getD []

/-- The text that a value is. -/
def asText? : Value → Option String
  | text s => some s
  | _ => none

/-- The number that a value is. -/
def asNumber? : Value → Option Number
  | number n => some n
  | _ => none

end Value

namespace Properties

/-- The properties among the fields of a value. -/
def ofValue (v : Value) : Properties where
  contentType := (v.field "contentType").asText?
  contentEncoding := (v.field "contentEncoding").asText?
  correlationId := (v.field "correlationId").asText?
  replyTo := (v.field "replyTo").asText?
  expiration := (v.field "expiration").asText?
  messageId := (v.field "messageId").asText?
  type := (v.field "type").asText?
  userId := (v.field "userId").asText?
  appId := (v.field "appId").asText?
  headers := (v.field "headers").entries?
  deliveryMode := (v.field "deliveryMode").asNumber?.bind DeliveryMode.ofNumber?
  priority := (v.field "priority").asNumber?
  timestamp := (v.field "timestamp").asNumber?

/-- A field that may be missing. -/
def part (name : String) (v : Option Value) : List (String × Value) :=
  (v.map fun v => (name, v)).toList

/-- The table of the properties that there are. -/
def toValue (p : Properties) : Value :=
  .table (part "contentType" (p.contentType.map .text) ++
    part "contentEncoding" (p.contentEncoding.map .text) ++
    part "correlationId" (p.correlationId.map .text) ++
    part "replyTo" (p.replyTo.map .text) ++
    part "expiration" (p.expiration.map .text) ++
    part "messageId" (p.messageId.map .text) ++
    part "type" (p.type.map .text) ++
    part "userId" (p.userId.map .text) ++
    part "appId" (p.appId.map .text) ++
    part "headers" (p.headers.map .table) ++
    part "deliveryMode" (p.deliveryMode.map fun m => .number m.number) ++
    part "priority" (p.priority.map .number) ++
    part "timestamp" (p.timestamp.map .number))

/-- What is handed to the peer for the properties of a message: a copy of their fields. -/
def outgoing (v : Value) : Value := .table v.ownFields

/-- What is kept of the properties that a peer sends, which have to be given. -/
def incoming (v : Value) : Except Value Value :=
  (v.read "contentType").map fun _ => (ofValue v).toValue

end Properties

end Amqp
