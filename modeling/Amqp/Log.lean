import Amqp.Value

/-!
# Log entries

What a program says while it runs: a level and the values it says, the first of them a text.
-/

namespace Amqp

/-- How loud an entry is. -/
inductive LogLevel where
  | info
  | warn
  | error
  deriving DecidableEq, Repr, Inhabited

/-- The word for a level. -/
def LogLevel.word : LogLevel → String
  | info => "info"
  | warn => "warn"
  | error => "error"

/-- One entry. -/
structure LogEntry where
  level : LogLevel
  args : List Value
  deriving Repr, Inhabited

namespace LogEntry

/-- An entry of one text. -/
def say (level : LogLevel) (text : String) : LogEntry := ⟨level, [.text text]⟩

end LogEntry

end Amqp
