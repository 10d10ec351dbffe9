import Amqp.Connection.Dialer

/-!
# The life of a connection

A connection opens channels until its caller closes it or the peer reports that it is closed. What
the peer reports is passed on to whoever listens.
-/

namespace Amqp

namespace Connection

/-- What a caller asks of a connection. -/
inductive Request where
  | openChannel
  | close
  deriving DecidableEq, Repr

/-- What the peer reports on its own. -/
inductive Notice where
  | closed (error : Option Value)
  | failed (error : Value)
  | blocked (reason : Value)
  | unblocked
  /-- Anything else, which nobody listens for. -/
  | other
  deriving Repr

/-- How the peer answers. -/
inductive Reply where
  | done
  /-- With something of its own choice. -/
  | gave (reply : Value)
  | threw (thrown : Value)
  deriving Repr

/-- What a caller gets. -/
inductive Result where
  | ok
  /-- A channel of the connection. -/
  | channel
  | failed (error : ConnectionError)
  | threw (thrown : Value)
  deriving Repr

/-- What happens to a connection. -/
inductive Event where
  | issue (call : Nat) (request : Request)
  | answered (call : Nat) (reply : Reply)
  | noticed (notice : Notice)
  deriving Repr

/-- What a connection does. -/
inductive Effect where
  /-- It asks the peer, on behalf of the call. -/
  | ask (call : Nat) (request : Request)
  | finish (call : Nat) (result : Result)
  /-- It passes a notice on. -/
  | announce (notice : Notice)
  | log (entry : LogEntry)
  deriving Repr

end Connection

/-- A connection and the calls that the peer has not answered. -/
structure Connection where
  closed : Bool := false
  calls : List (Nat × Connection.Request) := []
  deriving Repr

namespace Connection

/-- What is said about a notice. A close is said only once, and not after the caller's own. Nothing
is said of a failure without an error. -/
def entryOf (c : Connection) : Notice → List LogEntry
  | .closed error =>
    if c.closed then []
    else [⟨.warn, [.text (Dialer.mark ++ "Connection closed"), closeReason error]⟩]
  | .failed error =>
    if error.isGiven then
      [⟨.error, [.text (Dialer.mark ++ "Connection error:"), messageOf error]⟩]
    else []
  | .blocked reason => [⟨.warn, [.text (Dialer.mark ++ "Connection blocked:"), reason]⟩]
  | .unblocked => [.say .info (Dialer.mark ++ "Connection unblocked")]
  | .other => []

/-- What is passed on of a notice. -/
def announced : Notice → List Effect
  | .failed _ | .other => []
  | n => [.announce n]

/-- The connection after a notice. -/
def after (c : Connection) : Notice → Connection
  | .closed _ => { c with closed := true }
  | _ => c

/-- What a caller gets for an answer of the peer. -/
def resultOf : Request → Reply → Result
  | _, .threw thrown => .threw thrown
  | .openChannel, .done => .channel
  | .openChannel, .gave reply => .threw (missingOperationFault "channel" reply "on")
  | .close, _ => .ok

/-- One step of a connection. -/
def step (c : Connection) : Event → Connection × List Effect
  | .issue call .openChannel =>
    if c.closed then (c, [.finish call (.failed .closed)])
    else ({ c with calls := c.calls ++ [(call, .openChannel)] }, [.ask call .openChannel])
  | .issue call .close =>
    if c.closed then (c, [.finish call .ok])
    else ({ closed := true, calls := c.calls ++ [(call, .close)] }, [.ask call .close])
  | .answered call reply =>
    match c.calls.find? (·.1 == call) with
    | some (_, request) =>
      ({ c with calls := c.calls.filter (·.1 != call) }, [.finish call (resultOf request reply)])
    | none => (c, [])
  | .noticed n => (c.after n, (c.entryOf n).map .log ++ announced n)

/-- All steps of a run, with their effects in order. -/
def run (c : Connection) : List Event → Connection × List Effect
  | [] => (c, [])
  | e :: rest =>
    let (c, effects) := c.step e
    let (c, more) := c.run rest
    (c, effects ++ more)

end Connection

end Amqp
