import Amqp.Value.Comparison

/-!
# What a failure says

A thrown value of any kind has a description and perhaps a reply code. The failures of this library
show themselves as a `Report`: the name of their class, a message, and named fields.
-/

namespace Amqp

/-- What a failure shows: its class, its message and its other fields. -/
structure Report where
  name : String
  message : String
  fields : List (String × Value) := []
  deriving Repr, Inhabited

/-- The diagnostic text of a thrown value: the message of a failure, the text of anything else. -/
def describe : Value → Except Value String
  | .error _ message _ => .ok message
  | v =>
    match v.text? with
    | some t => .ok t
    | none => .error noTextFault

/-- A number without a fraction, as a reply code. -/
def integerCode? : Value → Option Number
  | .number n => if n.isInteger then some n else none
  | _ => none

/-- The reply code that a thrown value carries. A code of the wrong kind hides the other one. -/
def replyCodeOf (v : Value) : Option Number :=
  match v.field? "code" with
  | some code => integerCode? code
  | none => (v.field? "replyCode").bind integerCode?

/-- The message that a value carries. -/
def messageOf : Value → Value
  | .error _ message _ => .text message
  | v => (v.field? "message").getD .undefined

/-- What the error of a close event says: its message, and nothing without one. -/
def closeReason : Option Value → Value
  | some v => (messageOf v).orElse (.text "")
  | none => .text ""

/-- The value a field shows for something that may be missing. -/
def Value.orNull (v : Value) : Value := v.orElse .null

end Amqp
