import Amqp.CloseParams
import Amqp.Delivery.Basic
import Amqp.Error.Operation
import Amqp.Topology

/-!
# What a channel is asked, and what it asks

A caller makes a `Request` of a channel. The channel passes it on as one `Primitive` of the
transport beneath, which answers with an `Outcome`; the caller gets an `Answer`. Names, flags and
specifications are passed on as they came, so they are values of no fixed type. Each request has the
kind and the wording of its own failure, and one that cannot be worded is not even tried.
-/

namespace Amqp.Channel

/-- The primitives of a transport's channel. -/
inductive Primitive where
  | close (params : Option Value)
  | abort (params : Option Value)
  | queueDeclare (spec : Option Value)
  | exchangeDeclare (spec : Value)
  | queueBind (queue exchange routingKey : Value)
  | basicPublish (exchange routingKey properties body : Value)
  | queueDelete (queue : Value)
  | exchangeDelete (exchange : Value)
  | queuePurge (queue : Value)
  | basicConsume (queue options : Value)
  | basicCancel (consumerTag : Value)
  | basicQos (count isGlobal : Value)
  | basicAck (tag : Tag) (multiple : Value)
  | basicNack (tag : Tag) (multiple requeue : Value)
  deriving Repr, Inhabited

/-- How a transport answers a primitive. -/
inductive Outcome where
  | replied (reply : Value)
  | threw (thrown : Value)
  deriving Repr, Inhabited

/-- What a caller asks of a channel. An undefined value stands for one that is left out. -/
inductive Request where
  | close (params : Value)
  | abort (params : Value)
  | declareQueue (spec : Value)
  | declareExchange (spec : Value)
  | bindQueue (queue exchange routingKey : Value)
  | publish (exchange routingKey : Value) (body : Payload) (properties : Value)
  | deleteQueue (queue : Value)
  | deleteExchange (exchange : Value)
  | purgeQueue (queue : Value)
  | prefetch (count isGlobal : Value)
  | consume (queue options : Value)
  | cancel (consumerTag : Value)
  /-- Settles the delivery with that number. -/
  | settle (delivery : Nat) (settlement : Settlement) (multiple requeue : Value)
  deriving Repr, Inhabited

/-- What a caller gets. -/
inductive Answer where
  | ok (value : Value)
  | failed (error : OperationError)
  | misused (fault : DeliveryFault)
  /-- The call breaks: something that had to be described has no text. -/
  | threw (thrown : Value)
  deriving Repr, Inhabited

/-- A text in quotes. -/
def quote (s : String) : String := "\"" ++ s ++ "\""

/-- The text of a value in quotes. -/
def quoteValue (v : Value) : Except Value String := v.textOrFault.map quote

/-- Who acknowledges what a consumer with those options gets. -/
def ackModeOf (options : Value) : AckMode :=
  if (options.field "autoAck").isTruthy then .auto else .manual

/-- What a transport is told about a consumer with those options. -/
def consumeOptions (options : Value) : Value :=
  .table [("noAck", .bool (ackModeOf options == .auto)),
    ("consumerTag", options.field "consumerTag"), ("exclusive", options.field "exclusive")]

/-- The value, unless it counts as nothing. -/
def truthy? (v : Value) : Option Value := if v.isTruthy then some v else none

namespace Request

/-- The kind of a request's own failure. -/
def kind : Request → OperationKind
  | close _ => .channelClose
  | abort _ => .channelAbort
  | declareQueue _ => .queueDeclaration
  | declareExchange _ => .exchangeDeclaration
  | bindQueue .. => .binding
  | publish .. => .publish
  | deleteQueue _ => .queueDeletion
  | deleteExchange _ => .exchangeDeletion
  | purgeQueue _ => .queuePurge
  | prefetch .. => .qos
  | consume .. => .consume
  | cancel _ => .consumerCancel
  | settle .. => .acknowledgement

/-- How a queue that is to be declared is called. -/
def queueLabel (spec : Value) : Except Value String :=
  let name := spec.field "name"
  if name.isTruthy then (quoteValue name).map ("queue " ++ ·) else .ok "a server-named queue"

/-- The wording of a failed settlement. -/
def settleSummary (s : Settlement) (tag : Nat) : String :=
  "Failed to " ++ s.verb ++ " delivery " ++ (Number.ofNat tag).text

/-- The wording of a request's failure, on the channel with that identity. A settlement is worded by
`settleSummary`, once its tag is known. -/
def summary (channelId : String) : Request → Except Value String
  | close _ => .ok ("Failed to close channel " ++ channelId)
  | abort _ => .ok ("Failed to abort channel " ++ channelId)
  | declareQueue spec => (queueLabel spec).map ("Failed to declare " ++ ·)
  | declareExchange spec => do
    return "Failed to declare exchange " ++ (← quoteValue (← spec.read "name"))
  | bindQueue queue exchange _ => do
    return "Failed to bind queue " ++ (← quoteValue queue) ++ " to exchange " ++
      (← quoteValue exchange)
  | publish exchange routingKey _ _ => do
    return "Failed to publish to exchange " ++ (← quoteValue exchange) ++ " with routing key " ++
      (← quoteValue routingKey)
  | deleteQueue queue => (quoteValue queue).map ("Failed to delete queue " ++ ·)
  | deleteExchange exchange => (quoteValue exchange).map ("Failed to delete exchange " ++ ·)
  | purgeQueue queue => (quoteValue queue).map ("Failed to purge queue " ++ ·)
  | prefetch count _ => count.textOrFault.map ("Failed to set prefetch " ++ ·)
  | consume queue options => do
    let _ ← (options.ifDefined (.table [])).read "autoAck"
    return "Failed to consume from queue " ++ (← quoteValue queue)
  | cancel consumerTag => (quoteValue consumerTag).map ("Failed to cancel consumer " ++ ·)
  | settle .. => .ok ""

/-- The primitive that a request is passed on as; a settlement has one once its tag is known. -/
def primitive? : Request → Option Primitive
  | close params => some (.close (truthy? params))
  | abort params => some (.abort (truthy? params))
  | declareQueue spec => some (.queueDeclare (truthy? spec))
  | declareExchange spec => some (.exchangeDeclare spec)
  | bindQueue queue exchange routingKey => some (.queueBind queue exchange routingKey)
  | publish exchange routingKey body properties =>
    some (.basicPublish exchange routingKey (properties.ifDefined (.table [])) (.bytes body))
  | deleteQueue queue => some (.queueDelete queue)
  | deleteExchange exchange => some (.exchangeDelete exchange)
  | purgeQueue queue => some (.queuePurge queue)
  | prefetch count isGlobal => some (.basicQos count (isGlobal.ifDefined (.bool false)))
  | consume queue options => some (.basicConsume queue (consumeOptions options))
  | cancel consumerTag => some (.basicCancel consumerTag)
  | settle .. => none

/-- The primitive that settles a tag. -/
def settlePrimitive (s : Settlement) (tag : Nat) (multiple requeue : Value) : Primitive :=
  match s with
  | .acknowledge => .basicAck (.assigned tag) multiple
  | .reject => .basicNack (.assigned tag) multiple requeue

/-- What a request makes of the transport's reply. -/
def valueOf : Request → Value → Except Value Value
  | declareQueue _, reply => reply.read "queue"
  | purgeQueue _, reply => reply.read "messageCount"
  | declareExchange _, _ => .ok .undefined
  | close _, _ => .ok .undefined
  | abort _, _ => .ok .undefined
  | _, reply => .ok reply

end Request

end Amqp.Channel
