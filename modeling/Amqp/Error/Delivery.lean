import Amqp.Error.Report

/-!
# Misused deliveries

A delivery cannot be settled without a tag, nor twice. Settling one fails for such a reason, or
because the operation on the channel fails.
-/

namespace Amqp

/-- Where a delivery stands. -/
inductive DeliveryState where
  | unacknowledged
  | acknowledged
  | rejected
  deriving DecidableEq, Repr, Inhabited

/-- The word for a state. -/
def DeliveryState.word : DeliveryState → String
  | unacknowledged => "unacknowledged"
  | acknowledged => "acknowledged"
  | rejected => "rejected"

/-- How a delivery is settled. -/
inductive Settlement where
  | acknowledge
  | reject
  deriving DecidableEq, Repr, Inhabited

/-- The state that a settlement leads to. -/
def Settlement.state : Settlement → DeliveryState
  | acknowledge => .acknowledged
  | reject => .rejected

/-- The verb for a settlement. -/
def Settlement.verb : Settlement → String
  | acknowledge => "acknowledge"
  | reject => "reject"

/-- What is wrong with the use of a delivery. -/
inductive DeliveryFault where
  /-- The delivery has no positive integer as its tag. -/
  | noTag
  /-- The delivery with that tag is settled already. -/
  | settled (tag : Nat) (state : DeliveryState)
  deriving DecidableEq, Repr, Inhabited

/-- The kinds of misuse. -/
inductive DeliveryFaultKind where
  | alreadyAcknowledged
  | uninitializedTag
  deriving DecidableEq, Repr

/-- The name of a kind of misuse. -/
def DeliveryFaultKind.name : DeliveryFaultKind → String
  | alreadyAcknowledged => "AlreadyAcknowledged"
  | uninitializedTag => "UninitializedTag"

/-- What a misuse shows, given its wording. -/
def DeliveryFaultKind.report (kind : DeliveryFaultKind) (message : String) : Report :=
  ⟨"DeliveryStateError", message, [("kind", .text kind.name)]⟩

namespace DeliveryFault

/-- The kind of a misuse. -/
def kind : DeliveryFault → DeliveryFaultKind
  | noTag => .uninitializedTag
  | settled .. => .alreadyAcknowledged

/-- The wording of a misuse. -/
def message : DeliveryFault → String
  | noTag => "Delivery tag has not been assigned"
  | settled tag state =>
    "Delivery " ++ (Number.ofNat tag).text ++ " is already " ++ state.word

/-- What a misuse shows. -/
def report (f : DeliveryFault) : Report := f.kind.report f.message

end DeliveryFault

/-- Why a settlement fails. -/
inductive SettleError where
  | misuse (fault : DeliveryFault)
  /-- Whoever had to be asked refuses, and shows why. -/
  | refused (shown : Report)
  deriving Repr, Inhabited

/-- What a failed settlement shows. -/
def SettleError.report : SettleError → Report
  | misuse fault => fault.report
  | refused shown => shown

end Amqp
