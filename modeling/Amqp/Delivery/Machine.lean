import Amqp.Delivery.Basic

/-!
# One delivery and its settler

A single delivery under any interleaving of settlements, answers of the settler, and settlements of
later deliveries that cover this one. A settler is whoever the delivery asks; its answers may come
in any order and at any time.
-/

namespace Amqp

/-- What a settler answers. -/
inductive SettlerAnswer where
  | accepted
  | refused (shown : Report)
  /-- The settler breaks instead of answering. -/
  | broke (thrown : Value)
  deriving Repr

/-- What a settlement comes to. -/
inductive SettleResult where
  | ok
  | failed (error : SettleError)
  | threw (thrown : Value)
  deriving Repr

namespace Delivery

/-- A settlement, and whether it covers earlier deliveries and gives the message back. -/
structure Order where
  settlement : Settlement
  multiple : Value
  requeue : Value
  deriving Repr

/-- A delivery and the calls to its settler that are not answered yet. -/
structure Machine where
  delivery : Delivery
  /-- The numbers of the calls in flight. -/
  inFlight : List Nat := []

/-- What happens to a delivery. -/
inductive Event where
  /-- A settlement is asked for under that number. -/
  | settle (call : Nat) (order : Order)
  /-- The settler answers the call. -/
  | answered (call : Nat) (answer : SettlerAnswer)
  /-- A later delivery was settled together with this one. -/
  | covered (settlement : Settlement)

/-- What a delivery does. -/
inductive Effect where
  /-- It asks its settler. -/
  | ask (call tag : Nat) (order : Order)
  /-- The settlement with that number is over. -/
  | finish (call : Nat) (result : SettleResult)

namespace Machine

/-- One step of a delivery. -/
def step (m : Machine) : Event → Machine × List Effect
  | .settle call order =>
    match m.delivery.claim order.settlement with
    | (.refused fault, d) => ({ m with delivery := d }, [.finish call (.failed (.misuse fault))])
    | (.settled, d) => ({ m with delivery := d }, [.finish call .ok])
    | (.asks tag, d) => (⟨d, call :: m.inFlight⟩, [.ask call tag order])
  | .answered call answer =>
    if m.inFlight.contains call then
      let inFlight := m.inFlight.erase call
      match answer with
      | .accepted => ({ m with inFlight }, [.finish call .ok])
      | .refused shown =>
        (⟨m.delivery.restore, inFlight⟩, [.finish call (.failed (.refused shown))])
      | .broke thrown => ({ m with inFlight }, [.finish call (.threw thrown)])
    else (m, [])
  | .covered s => ({ m with delivery := m.delivery.markSettled s }, [])

end Machine

end Delivery

end Amqp
