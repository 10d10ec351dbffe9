import Amqp.Error.Report
import Amqp.Xml.Document

/-!
# Payloads that cannot be read

A payload can be asked for in five readings, and each fails in its own way. A payload that is not
well-formed UTF-8 fails every reading as a text.
-/

namespace Amqp

/-- What a payload was to be read as. -/
inductive DecodeTarget where
  | text
  | int
  | float
  | json
  | xml
  deriving DecidableEq, Repr, Inhabited

/-- The word for a reading. -/
def DecodeTarget.word : DecodeTarget → String
  | text => "text"
  | int => "int"
  | float => "float"
  | json => "json"
  | xml => "xml"

/-- What a failed reading shows, given its wording and whether another failure is beneath it. -/
def DecodeTarget.report (target : DecodeTarget) (message : String) (hasCause : Bool) : Report :=
  ⟨"RMQDecodeError", message,
    [("kind", .text "DecodeFailed"), ("target", .text target.word), ("hasCause", .bool hasCause)]⟩

/-- Why a payload cannot be read as asked. -/
inductive DecodeError where
  | notUtf8
  | notInteger (literal : String)
  | integerOutOfRange (literal : String)
  | notNumber (literal : String)
  | numberOutOfRange (literal : String)
  | notJson
  | notXml (failure : Xml.Failure)
  deriving DecidableEq, Repr

namespace DecodeError

/-- The reading that failed. -/
def target : DecodeError → DecodeTarget
  | notUtf8 => .text
  | notInteger _ => .int
  | integerOutOfRange _ => .int
  | notNumber _ => .float
  | numberOutOfRange _ => .float
  | notJson => .json
  | notXml _ => .xml

/-- How many units of a literal a message shows. -/
def previewLength : Nat := 32

/-- The literal, cut after its first units. -/
def preview (literal : String) : String :=
  if previewLength < Text.unitCount literal then Text.takeUnits previewLength literal ++ "..."
  else literal

/-- The wording of the failure. -/
def message : DecodeError → String
  | notUtf8 => "Payload is not valid UTF-8: The encoded data was not valid for encoding utf-8"
  | notInteger literal => "Payload is not an integer: \"" ++ preview literal ++ "\""
  | integerOutOfRange literal => "Integer out of range: " ++ preview literal
  | notNumber literal => "Payload is not a number: \"" ++ preview literal ++ "\""
  | numberOutOfRange literal => "Number out of range: " ++ preview literal
  | notJson => "Payload is not valid JSON: <detail>"
  | notXml failure => "Payload is not valid XML: " ++ failure.message

/-- Whether another failure is beneath this one. -/
def hasCause : DecodeError → Bool
  | notUtf8 => true
  | notJson => true
  | notXml (.unsupported _) => true
  | _ => false

/-- What is raised in the place of a failure that cannot be reported. -/
def thrown? : DecodeError → Option Value
  | notXml failure => failure.thrown?
  | _ => none

/-- What the failure shows. -/
def report (e : DecodeError) : Report := e.target.report e.message e.hasCause

end DecodeError

end Amqp
