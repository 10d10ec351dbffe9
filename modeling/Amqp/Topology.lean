import Amqp.Log
import Amqp.Value.Comparison

/-!
# Queues and exchanges as they are declared

What a caller says about a queue or an exchange is a table of fields. The flags among them have
defaults, the type of an exchange says how it routes, and some names of exchanges belong to the
broker and are never declared.
-/

namespace Amqp

/-- How an exchange routes. -/
inductive ExchangeType where
  | direct
  | fanout
  | topic
  | headers
  /-- A way of routing under another name; keys have to be equal as for `direct`. -/
  | other (name : Value)
  deriving Repr, Inhabited

namespace ExchangeType

/-- What names a type. -/
def toValue : ExchangeType → Value
  | direct => .text "direct"
  | fanout => .text "fanout"
  | topic => .text "topic"
  | headers => .text "headers"
  | other name => name

/-- The type of that name. -/
def ofValue (v : Value) : ExchangeType :=
  ([direct, fanout, topic, headers].find? (·.toValue.isEqual v)).getD (other v)

end ExchangeType

/-- The flags of a queue. Each is true or false, if the caller keeps to the rules. -/
structure QueueFlags where
  /-- Survives a restart of the broker. -/
  durable : Value
  /-- Restricted to the connection that declares it. -/
  exclusive : Value
  /-- Deleted once its last consumer goes away. -/
  autoDelete : Value
  deriving Repr, Inhabited

namespace QueueFlags

/-- The flags of a queue whose declaration leaves them open. -/
def default : QueueFlags := ⟨.bool false, .bool false, .bool true⟩

/-- The flags of a queue declared without any specification. -/
def unspecified : QueueFlags := ⟨.bool false, .bool true, .bool true⟩

/-- The flags that a specification asks for. -/
def ofSpec (spec : Value) : QueueFlags where
  durable := (spec.field "durable").orElse default.durable
  exclusive := (spec.field "exclusive").orElse default.exclusive
  autoDelete := (spec.field "autoDelete").orElse default.autoDelete

/-- Whether two queues have equal flags. -/
def isEqual (a b : QueueFlags) : Bool :=
  a.durable.isEqual b.durable && a.exclusive.isEqual b.exclusive &&
    a.autoDelete.isEqual b.autoDelete

end QueueFlags

/-- The flags of an exchange. -/
structure ExchangeFlags where
  /-- Survives a restart of the broker. -/
  durable : Value
  /-- Deleted once nothing is bound to it any more. -/
  autoDelete : Value
  deriving Repr, Inhabited

namespace ExchangeFlags

/-- The flags of an exchange whose declaration leaves them open. -/
def default : ExchangeFlags := ⟨.bool false, .bool false⟩

/-- The flags that a specification asks for. -/
def ofSpec (spec : Value) : ExchangeFlags where
  durable := (spec.field "durable").orElse default.durable
  autoDelete := (spec.field "autoDelete").orElse default.autoDelete

end ExchangeFlags

/-- The name of the exchange that routes straight to the queue named by the key. -/
def defaultExchange : String := ""

/-- The exchanges that belong to the broker. -/
def reservedExchanges : List String :=
  [defaultExchange, "amq.direct", "amq.fanout", "amq.topic", "amq.headers", "amq.match"]

/-- Whether an exchange belongs to the broker. -/
def isReservedExchange : Value → Bool
  | .text name => reservedExchanges.contains name
  | _ => false

/-- What is said when a reserved exchange is declared; nothing for any other. -/
def reservedExchangeWarning? : Value → Option LogEntry
  | .text name =>
    if name = defaultExchange then some (.say .warn "Using default exchange.")
    else if isReservedExchange (.text name) then
      some (.say .warn ("Using reserved exchange \"" ++ name ++ "\"."))
    else none
  | _ => none

end Amqp
