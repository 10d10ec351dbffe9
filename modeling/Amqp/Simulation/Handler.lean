import Amqp.Channel.Machine

/-!
# Handlers

What the handler of a consumer does with a delivery: nothing, fail, settle it, publish its bytes
somewhere else, or close the channel.
-/

namespace Amqp.Simulation

/-- A handler. -/
inductive Handler where
  | collect
  | fail (thrown : Value)
  /-- Fails on deliveries of that text. -/
  | failOn (text thrown : Value)
  | settle (s : Settlement) (multiple requeue : Value)
  /-- Acknowledges what was handed over before, and gives everything else back. -/
  | retry
  /-- Acknowledges JSON, and drops everything else. -/
  | acknowledgeJson
  | republish (exchange routingKey : Value)
  | close
  deriving Repr, Inhabited

/-- What a failing handler throws, if nothing else is said. -/
def Handler.fault : Value := .error "Error" "handler exploded" []

/-- What a handler comes to. -/
inductive Reaction where
  | nothing
  | throws (thrown : Value)
  /-- It asks something of its channel. -/
  | asks (request : Channel.Request)
  deriving Repr, Inhabited

/-- What a handler does with the delivery of that number. -/
def Handler.react (h : Handler) (number : Nat) (d : Delivery) : Reaction :=
  match h with
  | collect => .nothing
  | fail thrown => .throws thrown
  | failOn text thrown =>
    match d.message.body.asText with
    | .ok t => if text.isEqual (.text t) then .throws thrown else .nothing
    | .error _ => .nothing
  | settle s multiple requeue => .asks (.settle number s multiple requeue)
  | retry =>
    .asks (.settle number (if d.message.redelivered.isTruthy then .acknowledge else .reject)
      .undefined .undefined)
  | acknowledgeJson =>
    match d.message.body.asJson with
    | .ok _ => .asks (.settle number .acknowledge .undefined .undefined)
    | .error _ => .asks (.settle number .reject (.bool false) (.bool false))
  | republish exchange key => .asks (.publish exchange key d.message.body (.table []))
  | close => .asks (.close .undefined)

end Amqp.Simulation
