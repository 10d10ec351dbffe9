import Amqp.Error.Connection
import Amqp.Error.Decode
import Amqp.Error.Delivery
import Amqp.Error.Operation

/-!
# Failures made from values

Whoever makes a failure of this library gives its parts: a message, what is beneath, and what the
class of the failure asks for besides. The parts may be of any type; what is left open has a
default, and a message has to have a text.
-/

namespace Amqp

/-- The classes of failures that can be made. -/
inductive FailureClass where
  | base
  | connection
  | timeout
  | config
  | operation
  | delivery
  | decode
  deriving DecidableEq, Repr

/-- The name of a class. -/
def FailureClass.name : FailureClass → String
  | base => "RMQBaseError"
  | connection => "RMQConnectionError"
  | timeout => "RMQTimeoutError"
  | config => "RMQConfigError"
  | operation => "ChannelOperationError"
  | delivery => "DeliveryStateError"
  | decode => "RMQDecodeError"

/-- The class of that name. -/
def FailureClass.ofName? (name : String) : Option FailureClass :=
  [base, connection, timeout, config, operation, delivery, decode].find? (·.name == name)

namespace Report

/-- The message that a value gives; none at all is empty. -/
def messageText (v : Value) : Except Value String :=
  if v.isUndefined then .ok "" else v.textOrFault

/-- The message of an operation's failure: the detail stands behind, unless there is none. -/
def detailedText (message detail : Value) : Except Value String := do
  if detail.isTruthy then return (← message.textOrFault) ++ ": " ++ (← detail.textOrFault)
  else messageText message

/-- Whether trying again may help, given the reply code as it came. -/
def recoverableFor : Value → Bool
  | .undefined => true
  | .number code => isRecoverableCode code
  | _ => false

/-- A failed operation. -/
def ofOperation (kind message detail options : Value) : Except Value Report := do
  let detail := detail.ifDefined (.text "")
  let code := options.field "replyCode"
  return ⟨FailureClass.operation.name, ← detailedText message detail,
    [("kind", kind), ("detail", detail), ("replyCode", code.orNull),
      ("recoverable", .bool (recoverableFor code)), ("cause", (options.field "cause").orNull)]⟩

/-- A misused delivery. -/
def ofDelivery (kind message : Value) : Except Value Report := do
  return ⟨FailureClass.delivery.name, ← messageText message, [("kind", kind)]⟩

/-- The message of a failed reading. What is wrong with JSON is not told apart. -/
def readingText (target : Value) (message : String) : String :=
  if target.isEqual (.text DecodeTarget.json.word) then DecodeError.notJson.message else message

/-- A failed reading. -/
def ofReading (target message options : Value) : Except Value Report := do
  return ⟨FailureClass.decode.name, readingText target (← messageText message),
    [("kind", .text "DecodeFailed"), ("target", target),
      ("hasCause", .bool !(options.field "cause").isUndefined)]⟩

/-- The failure of a class, made from its parts in order. -/
def make (c : FailureClass) (parts : List Value) : Except Value Report :=
  let part (i : Nat) : Value := (parts[i]?).getD .undefined
  let cause : Value := (part 1).field "cause"
  match c with
  | .base => (messageText (part 0)).map fun m => ⟨c.name, m, causeFields cause⟩
  | .connection =>
    (messageText ((part 0).ifDefined (.text "Failed to establish a connection"))).map
      fun m => .connection m cause
  | .timeout => (messageText ((part 0).ifDefined (.text "Operation timed out"))).map .timeout
  | .config => (messageText (part 0)).map fun m => .config m ((part 1).ifDefined (.list []))
  | .operation => ofOperation (part 0) (part 1) (part 2) (part 3)
  | .delivery => ofDelivery (part 0) (part 1)
  | .decode => ofReading (part 0) (part 1) (part 2)

/-- The failure of an operation that a thrown value causes. -/
def ofThrown (kind message thrown : Value) : Except Value Report := do
  let detail ← describe thrown
  ofOperation kind message (.text detail)
    (.table [("cause", thrown),
      ("replyCode", ((replyCodeOf thrown).map Value.number).getD .undefined)])

end Report

end Amqp
