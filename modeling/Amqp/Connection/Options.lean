import Amqp.Error.Connection
import Amqp.Url.Basic

/-!
# Connection options

Where to connect to, how often to show a sign of life, and how long an attempt may take. The peer
reads the interval from the query of the address, so it is added there unless it is given already.
-/

namespace Amqp

/-- Options with nothing left open. -/
structure ConnectionOptions where
  uri : String
  /-- Seconds between two signs of life. -/
  heartbeat : Number
  /-- Milliseconds that an attempt to connect may take. -/
  timeout : Number
  deriving DecidableEq, Repr, Inhabited

namespace ConnectionOptions

/-- Seconds between two signs of life, if nothing else is said. -/
def defaultHeartbeat : Nat := 10

/-- Milliseconds that an attempt may take, if nothing else is said. -/
def defaultTimeout : Nat := 10000

end ConnectionOptions

/-- The name of the query pair that holds the interval. -/
def heartbeatName : List Char := "heartbeat".toList

/-- Whether the address gives an interval. -/
def Url.hasHeartbeat (u : Url) : Bool := u.pairs.any (·.1 == heartbeatName)

/-- The URL with the interval added, unless it gives one. -/
def Url.withHeartbeat (u : Url) (interval : String) : Url :=
  if u.hasHeartbeat then u else u.addPair (heartbeatName, interval.toList)

/-- The address with the interval added, unless it gives one. -/
def withHeartbeat (uri interval : String) : Except ConnectionError String :=
  match Url.parse? uri with
  | some u => .ok (u.withHeartbeat interval).href
  | none => .error (.invalidUri invalidUrlDetail)

/-- Why an attempt to connect ends before the peer is asked. -/
inductive AddressFault where
  | failure (error : ConnectionError)
  | thrown (value : Value)
  deriving Repr

/-- The address that values give: the text of the first one, with the text of the second one as
its interval. Only an interval that is needed has to have a text. -/
def addressOf (uri interval : Value) : Except AddressFault String :=
  match uri.text? with
  | none => .error (.failure (.invalidUri noTextDetail))
  | some uri =>
    match Url.parse? uri, interval.text? with
    | none, _ => .error (.failure (.invalidUri invalidUrlDetail))
    | some u, some interval => .ok (u.withHeartbeat interval).href
    | some u, none => if u.hasHeartbeat then .ok u.href else .error (.thrown noTextFault)

/-- Options as a caller gives them, of any types, with the defaults for those left open. -/
structure ConnectionRequest where
  uri : Value
  heartbeat : Value
  timeout : Value
  deriving Repr, Inhabited

namespace ConnectionRequest

/-- The request for options with nothing left open. -/
def ofOptions (o : ConnectionOptions) : ConnectionRequest :=
  ⟨.text o.uri, .number o.heartbeat, .number o.timeout⟩

/-- The request of a table of options; there is none in a value without fields. -/
def ofValue (v : Value) : Except Value ConnectionRequest := do
  let timeout ← v.read "connectionTimeoutMs"
  let uri ← v.read "uri"
  let heartbeat ← v.read "heartbeat"
  return ⟨uri, heartbeat.orElse (.ofNat ConnectionOptions.defaultHeartbeat),
    timeout.orElse (.ofNat ConnectionOptions.defaultTimeout)⟩

/-- The address that is to be asked. -/
def address (r : ConnectionRequest) : Except AddressFault String := addressOf r.uri r.heartbeat

end ConnectionRequest

end Amqp
