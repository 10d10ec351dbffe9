import Amqp.Channel.Request
import Amqp.Delivery.TagMap
import Amqp.Log

/-!
# The state of a channel

A channel is open until it is closed or aborted by its caller, or the transport reports that it is
gone. While it is open it keeps account of the deliveries that its consumers have to settle; a
closed channel keeps none.
-/

namespace Amqp

/-- The state of a channel. -/
structure Channel where
  /-- The identity that its messages name. -/
  id : String
  isOpen : Bool := true
  /-- A close has been asked for and is not over. -/
  closing : Bool := false
  /-- All deliveries so far, in the order they arrived. -/
  deliveries : List Delivery := []
  /-- The manual deliveries that wait for a settlement. -/
  pending : TagMap Nat := []
  deriving Repr, Inhabited

namespace Channel

/-- The mark in front of everything a channel says. -/
def mark : String := "[RMQChannel] "

/-- How many deliveries wait for a settlement. -/
def unsettledCount (c : Channel) : Nat := c.pending.length

/-- The word for the state. -/
def stateWord (c : Channel) : String := if c.isOpen then "open" else "closed"

/-- The channel once it is closed: no tag means anything any more. -/
def markClosed (c : Channel) : Channel := { c with isOpen := false, pending := [] }

/-- The channel with one of its deliveries changed. -/
def modifyDelivery (c : Channel) (d : Nat) (f : Delivery → Delivery) : Channel :=
  { c with deliveries := c.deliveries.modify d f }

/-- A failure because the channel is closed. -/
def closedError (c : Channel) (r : Request) (summary : String) : OperationError :=
  { kind := r.kind, summary, detail := "channel " ++ c.id ++ " is closed" }

/-- A refused settlement because the channel is closed. -/
def settleClosedError (s : Settlement) (tag : Nat) : OperationError :=
  { kind := .acknowledgement
    summary := Request.settleSummary s tag
    detail := "channel is closed" }

/-- What is said about a failure. -/
def failureEntry (e : OperationError) : LogEntry := .say .error (mark ++ e.message)

/-- The channel once the transport has accepted a settlement of the tag: the covered deliveries hear
of it, and none of them waits any longer. A tag that cannot be compared stops that. -/
def release (c : Channel) (tag : Nat) (s : Settlement) (multiple : Bool) :
    Channel × Option Value :=
  let swept := c.pending.settle (.assigned tag) multiple
  let c := swept.covered.foldl (fun c e => c.modifyDelivery e.2 (·.markSettled s)) c
  ({ c with pending := swept.kept }, swept.fault)

/-- The channel with one more delivery, which gets the next number. -/
def receive (c : Channel) (m : Message) (mode : AckMode) : Channel :=
  let d := c.deliveries.length
  { c with
    deliveries := c.deliveries ++ [{ message := m, mode }]
    pending := match mode with
      | .manual => c.pending.track m.tag d
      | .auto => c.pending }

/-- What is said when the transport reports that the channel is gone. -/
def closedEntry (c : Channel) (error : Option Value) : LogEntry :=
  ⟨.warn, [.text (mark ++ "Channel " ++ c.id ++ " closed by transport"), closeReason error]⟩

/-- The channel after the transport reports that it is gone. A close that is being carried out has
its own ending, so the report counts only outside of one. -/
def lost (c : Channel) (error : Option Value) : Channel × List LogEntry :=
  if c.isOpen && !c.closing then (c.markClosed, [c.closedEntry error]) else (c, [])

/-- What is said when a handler fails; nothing if the message cannot be described. -/
def handlerEntries (m : Message) (thrown : Value) : List LogEntry :=
  match quoteValue m.routingKey, m.tag.text with
  | .ok key, .ok tag =>
    [⟨.error, [.text (mark ++ "Delivery handler failed for " ++ key ++ " (tag " ++ tag ++ "):"),
      thrown]⟩]
  | _, _ => []

/-- What is said when the broker cancels a consumer. -/
def cancelledEntry (consumerTag queue : Value) : Except Value LogEntry := do
  return .say .warn (mark ++ "Consumer " ++ (← consumerTag.textOrFault) ++ " on " ++
    (← quoteValue queue) ++ " cancelled by broker")

/-- What is said when a close succeeds. -/
def closeEntry (c : Channel) : LogEntry := .say .info (mark ++ "Channel " ++ c.id ++ " closed")

/-- A failure to open a channel. -/
def openError (thrown : Value) : Except Value OperationError :=
  OperationError.ofThrown .channelCreation "Failed to create a channel" thrown

end Channel

end Amqp
