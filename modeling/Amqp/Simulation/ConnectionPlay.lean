import Amqp.Connection.Lifecycle
import Amqp.Simulation.Script
import Amqp.Value.Inspection

/-!
# Playing attempts to connect and the connections made

All connections made share one scripted peer, so its notices reach every one of them. Callers talk
to the connection made last.
-/

namespace Amqp.Simulation.ConnectionPlay

/-- A step. -/
inductive Step where
  | connect (options : Value)
  | advance (milliseconds : Number)
  | release (hold : String) (ending : Ending)
  | openChannel
  | close
  | isClosed
  | notice (n : Connection.Notice)
  deriving Repr

/-- What is written after a step. -/
structure Report where
  result : Shown
  calls : List CallRecord
  logs : List LogEntry
  events : List (List Value)
  settled : List Late
  timers : Nat
  closed : Option Bool

/-- A call that the peer holds. -/
inductive Target where
  /-- The attempt with that number. -/
  | attempt (id : Nat)
  /-- The close of a connection that came too late. -/
  | lateClose
  /-- A call on the connection with that number. -/
  | call (connection id : Nat)
  deriving Repr

/-- The attempts, the connections made, and what happened in the current step. -/
structure World where
  dialer : Dialer := {}
  connections : List Connection := []
  holds : List (String × Target) := []
  script : Script := []
  calls : List CallRecord := []
  logs : List LogEntry := []
  events : List (List Value) := []
  ends : List Late := []

/-- What a listener records of a notice. -/
def eventOf : Connection.Notice → List Value
  | .closed error => [.text "closed", error.getD .undefined]
  | .failed error => [.text "error", error]
  | .blocked reason => [.text "blocked", reason]
  | .unblocked => [.text "unblocked"]
  | .other => []

/-- What the result of a call on a connection shows. -/
def shownOf : Connection.Result → Shown
  | .ok => .ok .undefined
  | .channel => .ok (.text "AmqplibChannel")
  | .failed e => .raised e.report
  | .threw v => .threw v

/-- What the result of an attempt shows. -/
def shownAttempt : ConnectResult → Shown
  | .connected => .ok .undefined
  | .failed e => .raised e.report
  | .threw v => .threw v

namespace World

/-- Records the effects on a connection that ask nothing. -/
def note (w : World) (effects : List Connection.Effect) : World :=
  effects.foldl (fun w e =>
    match e with
    | .ask .. => w
    | .finish call result => { w with ends := w.ends ++ [⟨call, shownOf result⟩] }
    | .announce n => { w with events := w.events ++ [eventOf n] }
    | .log entry => { w with logs := w.logs ++ [entry] }) w

/-- One event of the connection with that number. -/
def event (w : World) (i : Nat) (e : Connection.Event) : World × List Connection.Effect :=
  match w.connections[i]? with
  | none => (w, [])
  | some c =>
    let (c, effects) := c.step e
    ({ w with connections := w.connections.set i c }.note effects, effects)

/-- A notice that reaches all connections. -/
def notify (w : World) (n : Connection.Notice) : World :=
  (List.range w.connections.length).foldl (fun w i => (w.event i (.noticed n)).1) w

/-- A call reaches the peer, which takes its next cue. -/
def reach (w : World) (method : String) (args : List Value) : World × Ending :=
  let (cue, script) := w.script.take
  let w := { w with script, calls := w.calls ++ [{ method, args }] }
  match cue.closing with
  | some error => (w.notify (.closed error), cue.ending)
  | none => (w, cue.ending)

/-- The peer holds a call under a name. -/
def hold (w : World) (name : String) (t : Target) : World :=
  { w with holds := w.holds.filter (·.1 != name) ++ [(name, t)] }

/-- The word for what is asked of the peer. -/
def methodOf : Connection.Request → String
  | .openChannel => "createChannel"
  | .close => "connection.close"

/-- A caller asks something of the connection made last, or learns that there is none. -/
def issue (w : World) (index : Nat) (r : Connection.Request) : World :=
  if w.connections.isEmpty then
    { w with ends := w.ends ++ [⟨index, .ok (.text "no transport")⟩] }
  else
    let i := w.connections.length - 1
    let (w, effects) := w.event i (.issue index r)
    match effects with
    | [.ask call r] =>
      let (w, ending) := w.reach (methodOf r) []
      match ending, replyOf ending with
      | .held name, _ => w.hold name (.call i call)
      | _, some reply => (w.event i (.answered call reply)).1
      | _, none => w
    | _ => w

/-- The close of a connection that came too late ends. -/
def endLateClose (w : World) : Option Connection.Reply → World
  | some (.threw thrown) =>
    let (dialer, effects) := w.dialer.step (.lateCloseFailed thrown)
    { w with
      dialer
      logs := w.logs ++ effects.filterMap fun e => match e with
        | .log entry => some entry
        | _ => none }
  | _ => w

/-- Carries out the effects on attempts, but for asking the peer for a connection. -/
def settleAttempts (w : World) (effects : List Dialer.Effect) : World :=
  effects.foldl (fun w e =>
    match e with
    | .dial .. => w
    | .finish id result =>
      let w := { w with ends := w.ends ++ [⟨id, shownAttempt result⟩] }
      match result with
      | .connected => { w with connections := w.connections ++ [{}] }
      | _ => w
    | .log entry => { w with logs := w.logs ++ [entry] }
    | .closeLate _ =>
      let (w, ending) := w.reach "connection.close" []
      match ending with
      | .held name => w.hold name .lateClose
      | _ => w.endLateClose (replyOf ending)) w

/-- One event of the attempts. -/
def dialerEvent (w : World) (e : Dialer.Event) : World × List Dialer.Effect :=
  let (dialer, effects) := w.dialer.step e
  ({ w with dialer }.settleAttempts effects, effects)

/-- The peer answers an attempt. -/
def endAttempt (w : World) (id : Nat) : Ending → World
  | .throws v => (w.dialerEvent (.refused id v)).1
  | .throwsAtOnce v => (w.dialerEvent (.broke id v)).1
  | .held name => w.hold name (.attempt id)
  | .reply v => (w.dialerEvent (.misled id v)).1
  | .neutral => (w.dialerEvent (.established id)).1

/-- When a timer goes off by the clock of a script. That clock has no timers of its own: it adds a
limit to the time as it is given, and one that is no number as a text. -/
def scriptedDue (now : Number) (limit : Value) : Number :=
  match limit with
  | .number n => now.add n
  | .bool b => now.add (.ofNat b.toNat)
  | v => .ofText (now.text ++ v.text?.getD "")

/-- The timer of the attempt with that number goes by the clock of the script. -/
def scriptTimer (w : World) (id : Nat) : World :=
  { w with
    dialer := w.dialer.modify id fun a => { a with due := scriptedDue w.dialer.now a.limit } }

/-- A caller asks for a connection. -/
def connect (w : World) (index : Nat) (options : Value) : World :=
  match ConnectionRequest.ofValue options with
  | .error thrown => { w with ends := w.ends ++ [⟨index, .threw thrown⟩] }
  | .ok request =>
    let (w, effects) := w.dialerEvent (.connect index request)
    match effects with
    | [.dial id uri] =>
      let (w, ending) := (w.scriptTimer id).reach "connect" [.text uri]
      w.endAttempt id ending
    | _ => w

/-- The peer lets go of a call. -/
def release (w : World) (name : String) (ending : Ending) : Option World :=
  (w.holds.find? (·.1 == name)).map fun (_, target) =>
    let w := { w with holds := w.holds.filter (·.1 != name) }
    match target with
    | .attempt id => w.endAttempt id ending
    | .lateClose => w.endLateClose (replyOf ending)
    | .call i id =>
      match replyOf ending with
      | some reply => (w.event i (.answered id reply)).1
      | none => w

/-- The connection that callers talk to. -/
def current? (w : World) : Option Connection := w.connections.getLast?

/-- What becomes of a notice of the peer: a failure that nobody listens for is thrown, and one
without an error has no message that a listener could read. -/
def shownNotice (w : World) : Connection.Notice → Shown
  | .failed error =>
    if w.connections.isEmpty then .threw (unheardFault error)
    else if error.isGiven then .ok .undefined
    else .threw (missingFieldFault error "message")
  | _ => .ok .undefined

/-- Plays one step. -/
def play (w : World) (index : Nat) (step : Step) (script : Script) : World × Report :=
  let w := { w with script, calls := [], logs := [], events := [], ends := [] }
  let (w, result) : World × Shown :=
    match step with
    | .connect options => (w.connect index options, .pending)
    | .advance ms => ((w.dialerEvent (.advance ms)).1, .ok .undefined)
    | .release name ending =>
      match w.release name ending with
      | some w => (w, .ok .undefined)
      | none => (w, .ok (.text "no such hold"))
    | .openChannel => (w.issue index .openChannel, .pending)
    | .close => (w.issue index .close, .pending)
    | .isClosed =>
      match w.current? with
      | some c => (w, .ok (.bool c.closed))
      | none => (w, .ok (.text "no transport"))
    | .notice n => (w.notify n, w.shownNotice n)
  let (own, settled) := Late.split index w.ends
  (w, ⟨own.getD result, w.calls, w.logs, w.events, settled, w.dialer.timers,
    w.current?.map (·.closed)⟩)

/-- Plays all steps from the one with the index on. -/
def playAll (w : World) (index : Nat) : List (Step × Script) → List Report
  | [] => []
  | (step, script) :: rest =>
    let (w, report) := w.play index step script
    report :: playAll w (index + 1) rest

end World

/-- The reports of all steps. -/
def reports (steps : List (Step × Script)) : List Report := World.playAll {} 0 steps

end Amqp.Simulation.ConnectionPlay
