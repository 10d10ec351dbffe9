import Amqp.Error.Report

/-!
# Failed connections

A connection is not made because its address cannot be read, because the peer refuses it or because
it takes too long; and a closed connection opens no channels. Configuration that cannot be used is
refused with all its problems at once.
-/

namespace Amqp

/-- Fields that say whether another failure is beneath one. -/
def causeFields (cause : Value) : List (String × Value) :=
  if cause.isUndefined then [] else [("hasCause", .bool true)]

/-- What a failed connection shows. -/
def Report.connection (message : String) (cause : Value) : Report :=
  ⟨"RMQConnectionError", message, causeFields cause⟩

/-- What running out of time shows. -/
def Report.timeout (message : String) : Report := ⟨"RMQTimeoutError", message, []⟩

/-- What a refused configuration shows. -/
def Report.config (message : String) (issues : Value) : Report :=
  ⟨"RMQConfigError", message, [("issues", issues)]⟩

/-- Why there is no connection, or no channel on one. -/
inductive ConnectionError where
  /-- The address is no URL; the detail says why. -/
  | invalidUri (detail : String)
  /-- The peer refused; the detail describes the value it threw. -/
  | refused (detail : String) (cause : Value)
  /-- The time allowed for connecting, as a text of milliseconds, has passed. -/
  | timedOut (milliseconds : String)
  /-- The connection is closed. -/
  | closed
  deriving Repr, Inhabited

/-- What is raised for a text that is no URL. -/
def invalidUrlDetail : String := "Invalid URL"

/-- What a failed connection shows. -/
def ConnectionError.report : ConnectionError → Report
  | invalidUri detail =>
    .connection ("Invalid connection URI: " ++ detail) (.error "TypeError" detail [])
  | refused detail cause => .connection ("Failed to connect: " ++ detail) cause
  | timedOut ms => .timeout ("Connection timeout after " ++ ms ++ "ms")
  | closed => .connection "Connection is closed" .undefined

end Amqp
