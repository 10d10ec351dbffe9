import Amqp.Value.Comparison

/-!
# Delivery tags

A broker numbers the deliveries of a channel with positive integers. Whatever else a peer puts in
that place is kept as it came; it names no delivery that could be settled, but it can still be
looked up and compared.
-/

namespace Amqp

/-- The tag of a delivery. -/
inductive Tag where
  /-- A positive integer. -/
  | assigned (n : Nat)
  /-- Anything else that came in its place. -/
  | irregular (v : Value)
  deriving Repr, Inhabited

namespace Tag

/-- The tag that a value is. -/
def ofValue : Value → Tag
  | .number n =>
    match n.toInt? with
    | some (.ofNat (k + 1)) => assigned (k + 1)
    | _ => irregular (.number n)
  | v => irregular v

/-- The value that came as the tag. -/
def toValue : Tag → Value
  | assigned n => .number (.ofNat n)
  | irregular v => v

/-- Whether two tags are one key. -/
def same : Tag → Tag → Bool
  | assigned m, assigned n => m == n
  | irregular v, irregular w => v.sameKey w
  | _, _ => false

/-- Whether a tag comes before another. Only assigned tags can always be compared. -/
def before : Tag → Tag → Except Value Bool
  | assigned m, assigned n => .ok (m < n)
  | a, b => a.toValue.before b.toValue

/-- The number of an assigned tag. -/
def number? : Tag → Option Nat
  | assigned n => some n
  | irregular _ => none

/-- The text of a tag. -/
def text : Tag → Except Value String
  | assigned n => .ok (Number.ofNat n).text
  | irregular v => v.textOrFault

end Tag

end Amqp
