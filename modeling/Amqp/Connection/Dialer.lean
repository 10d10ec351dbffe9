import Amqp.Connection.Options
import Amqp.Connection.Timer
import Amqp.Log

/-!
# Attempts to connect

Any number of attempts may run at once, each with a time limit of its own. The peer answers an
attempt once or never, before the limit or after it. A connection that comes too late has nobody
waiting for it, so it is closed again.
-/

namespace Amqp

/-- What an attempt to connect comes to. -/
inductive ConnectResult where
  | connected
  | failed (error : ConnectionError)
  /-- The attempt broke before the peer was asked. -/
  | threw (thrown : Value)
  deriving Repr

/-- Where an attempt stands. -/
inductive AttemptPhase where
  /-- The peer has not answered, and the time is not up. -/
  | waiting
  /-- The time is up, and the peer has not answered. -/
  | late
  | finished
  deriving DecidableEq, Repr

/-- An attempt to connect. -/
structure Attempt where
  id : Nat
  /-- The time that the attempt may take, as it was given. -/
  limit : Value
  /-- When the time is up. -/
  due : Number
  /-- Its timer is set. -/
  armed : Bool := true
  phase : AttemptPhase := .waiting
  deriving Repr

namespace Attempt

/-- Whether the time of the attempt is up. -/
def isDue (a : Attempt) (now : Number) : Bool := a.due.le now

/-- The attempt once its timer has fired. -/
def expire (a : Attempt) : Attempt :=
  { a with armed := false, phase := if a.phase = .waiting then .late else a.phase }

/-- The attempt once the peer has answered. -/
def settle (a : Attempt) : Attempt := { a with armed := false, phase := .finished }

end Attempt

/-- The clock, in milliseconds, and all attempts so far. -/
structure Dialer where
  now : Number := .ofNat 0
  attempts : List Attempt := []
  deriving Repr

namespace Dialer

/-- What happens to the attempts. -/
inductive Event where
  /-- A caller asks for a connection, under a number of its own. -/
  | connect (id : Nat) (request : ConnectionRequest)
  /-- The peer takes the connection. -/
  | established (id : Nat)
  /-- The peer answers with something that is no connection. -/
  | misled (id : Nat) (reply : Value)
  /-- The peer refuses the connection. -/
  | refused (id : Nat) (thrown : Value)
  /-- Asking the peer fails before it can answer. -/
  | broke (id : Nat) (thrown : Value)
  /-- Time passes. -/
  | advance (milliseconds : Number)
  /-- Closing a connection that came too late fails. -/
  | lateCloseFailed (thrown : Value)
  deriving Repr

/-- What comes of an attempt. -/
inductive Effect where
  /-- The peer at the address is asked. -/
  | dial (id : Nat) (uri : String)
  /-- The attempt is over for its caller. -/
  | finish (id : Nat) (result : ConnectResult)
  /-- The connection of an attempt is closed because it came too late. -/
  | closeLate (id : Nat)
  | log (entry : LogEntry)
  deriving Repr

/-- The mark in front of everything a connection says. -/
def mark : String := "[AmqplibTransport] "

/-- How many timers are set. -/
def timers (d : Dialer) : Nat := d.attempts.countP (·.armed)

/-- The attempt with that number. -/
def attempt? (d : Dialer) (id : Nat) : Option Attempt := d.attempts.find? (·.id == id)

/-- The attempts with the one of that number changed. -/
def modify (d : Dialer) (id : Nat) (f : Attempt → Attempt) : Dialer :=
  { d with attempts := d.attempts.map fun a => if a.id = id then f a else a }

/-- What is said about a connection that comes too late. -/
def lateEntry : LogEntry :=
  .say .warn (mark ++ "Connection established after timeout, closing to prevent leak")

/-- What is said when such a connection cannot be closed. -/
def lateCloseEntry (detail : String) : LogEntry :=
  ⟨.error, [.text (mark ++ "Failed to close late connection:"), .text detail]⟩

/-- The peer takes the connection of an attempt. -/
def establish (d : Dialer) (a : Attempt) : Dialer × List Effect :=
  match a.phase with
  | .waiting => (d.modify a.id Attempt.settle, [.finish a.id .connected])
  | .late => (d.modify a.id Attempt.settle, [.log lateEntry, .closeLate a.id])
  | .finished => (d, [])

/-- The peer answers an attempt with something that is no connection. What comes too late cannot be
closed either, and nobody hears of that. -/
def mislead (d : Dialer) (a : Attempt) (reply : Value) : Dialer × List Effect :=
  match a.phase with
  | .waiting =>
    (d.modify a.id Attempt.settle,
      [.finish a.id (.threw (missingOperationFault "this.connection" reply "on"))])
  | .late => (d.modify a.id Attempt.settle, [.log lateEntry])
  | .finished => (d, [])

/-- The peer refuses the connection of an attempt. Nobody hears of it if the time is up, or if the
refusal cannot be described. -/
def refuse (d : Dialer) (a : Attempt) (thrown : Value) : Dialer × List Effect :=
  match a.phase, describe thrown with
  | .finished, _ => (d, [])
  | .waiting, .ok detail =>
    (d.modify a.id Attempt.settle, [.finish a.id (.failed (.refused detail thrown))])
  | _, _ => (d.modify a.id Attempt.settle, [])

/-- The effect of the timer of an attempt, if it fires at that time. -/
def expiry? (now : Number) (a : Attempt) : Option Effect :=
  if a.armed && a.isDue now && a.phase == .waiting then
    some (.finish a.id (.failed (.timedOut (a.limit.text?.getD ""))))
  else none

/-- Time passes, and all timers that are due fire. -/
def advance (d : Dialer) (milliseconds : Number) : Dialer × List Effect :=
  let now := d.now.add milliseconds
  (⟨now, d.attempts.map fun a => if a.armed && a.isDue now then a.expire else a⟩,
    d.attempts.filterMap (expiry? now))

/-- When a timer goes off that is set now. -/
def dueTime (now : Number) (limit : Value) : Except Value Number :=
  (Timer.delayOf limit).map now.add

/-- An attempt begins, unless there is no address to ask or no time to wait for. -/
def connect (d : Dialer) (id : Nat) (r : ConnectionRequest) : Dialer × List Effect :=
  match r.address, dueTime d.now r.timeout with
  | .error (.failure e), _ => (d, [.finish id (.failed e)])
  | .error (.thrown v), _ => (d, [.finish id (.threw v)])
  | .ok _, .error fault => (d, [.finish id (.threw fault)])
  | .ok uri, .ok due =>
    ({ d with attempts := d.attempts ++ [{ id, limit := r.timeout, due }] }, [.dial id uri])

/-- One step of the attempts. -/
def step (d : Dialer) : Event → Dialer × List Effect
  | .connect id request => d.connect id request
  | .established id =>
    match d.attempt? id with
    | some a => d.establish a
    | none => (d, [])
  | .misled id reply =>
    match d.attempt? id with
    | some a => d.mislead a reply
    | none => (d, [])
  | .refused id thrown =>
    match d.attempt? id with
    | some a => d.refuse a thrown
    | none => (d, [])
  | .broke id thrown =>
    match d.attempt? id with
    | some a =>
      if a.phase = .waiting then
        (d.modify id fun a => { a with phase := .finished }, [.finish id (.threw thrown)])
      else (d, [])
    | none => (d, [])
  | .advance milliseconds => d.advance milliseconds
  | .lateCloseFailed thrown =>
    match describe thrown with
    | .ok detail => (d, [.log (lateCloseEntry detail)])
    | .error _ => (d, [])

/-- All steps of a run, with their effects in order. -/
def run (d : Dialer) : List Event → Dialer × List Effect
  | [] => (d, [])
  | e :: rest =>
    let (d, effects) := d.step e
    let (d, more) := d.run rest
    (d, effects ++ more)

end Dialer

end Amqp
