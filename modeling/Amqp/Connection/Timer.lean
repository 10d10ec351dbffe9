import Amqp.Value.Comparison

/-!
# Timers

A timer runs for whole milliseconds, of which there are at least one and not too many. A delay that
is out of that range, or no number at all, counts as one millisecond.
-/

namespace Amqp.Timer

/-- The longest time that a timer runs for, in milliseconds. -/
def longestDelay : Nat := 2147483647

/-- How long a timer runs that is set for so many milliseconds. -/
def delay (milliseconds : Number) : Number :=
  if (Number.ofNat 1).le milliseconds && milliseconds.le (.ofNat longestDelay) then
    milliseconds.truncate
  else .ofNat 1

/-- How long a timer runs that is set for a value, which is counted as a number. An integer of any
size is not, and neither is what has no text. -/
def delayOf : Value → Except Value Number
  | .bigint _ =>
    .error (.error "TypeError" "Cannot mix BigInt and other types, use explicit conversions" [])
  | v => v.comparable.map fun v => delay v.toNumber

end Amqp.Timer
