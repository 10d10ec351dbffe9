import Amqp.Channel.Request
import Amqp.Connection.Lifecycle

/-!
# Scripts

A simulation plays a list of steps against a remote that follows a script. The script says how the
calls of a step end, in the order they are made: with the neutral reply, with a given one, by
throwing, or not before a later step lets go of them. After each step everything that can still
happen happens, and a report is written.
-/

namespace Amqp.Simulation

/-- How a call to the remote ends. -/
inductive Ending where
  /-- With the reply that the remote gives if nothing else is said. -/
  | neutral
  | reply (v : Value)
  | throws (v : Value)
  /-- Before anything could be awaited. -/
  | throwsAtOnce (v : Value)
  /-- Not before a later step lets go of the name. -/
  | held (name : String)
  deriving Repr, Inhabited

/-- What the remote does with a call. -/
structure Cue where
  /-- The close event that it fires first, with the event's error. -/
  closing : Option (Option Value) := none
  ending : Ending := .neutral
  deriving Repr, Inhabited

/-- What the remote will do with the next calls; afterwards it only gives neutral replies. -/
abbrev Script := List Cue

/-- The next cue, and the script after it. -/
def Script.take : Script → Cue × Script
  | [] => ({}, [])
  | cue :: rest => (cue, rest)

/-- The peer's answer to a call that ends now. -/
def replyOf : Ending → Option Connection.Reply
  | .throws v => some (.threw v)
  | .throwsAtOnce v => some (.threw v)
  | .held _ => none
  | .reply v => some (.gave v)
  | .neutral => some .done

/-- A call that the remote got. -/
structure CallRecord where
  /-- The remote channel, if there can be several. -/
  remote : Option Nat := none
  method : String
  args : List Value
  deriving Repr, Inhabited

/-- What a step, or a call that took longer than its step, comes to. -/
inductive Shown where
  | ok (v : Value)
  | failed (r : Report)
  /-- A value was thrown. -/
  | threw (v : Value)
  /-- A failure of this library was thrown. -/
  | raised (r : Report)
  /-- The call is not over. -/
  | pending
  /-- A remark instead of a result. -/
  | note (s : String)
  /-- Data as they are. -/
  | data (v : Value)
  /-- Views of a payload. -/
  | views (p : Payload) (names : List String)
  deriving Repr, Inhabited

/-- What an answer shows. -/
def Shown.ofAnswer : Channel.Answer → Shown
  | .ok v => .ok v
  | .failed e => .failed e.report
  | .misused fault => .failed fault.report
  | .threw v => .threw v

/-- A call that was over in a later step than the one that made it. -/
structure Late where
  step : Nat
  shown : Shown
  deriving Repr, Inhabited

/-- The end of the step's own call, and the ends of the calls that earlier steps made. -/
def Late.split (index : Nat) (ends : List Late) : Option Shown × List Late :=
  ((ends.find? (·.step == index)).map (·.shown), ends.filter (·.step != index))

end Amqp.Simulation
