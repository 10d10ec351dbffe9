import Amqp.Error.Decode
import Amqp.Json
import Amqp.Number.Literal

/-!
# Payloads

The readings of a message's bytes: as text, as an integer, as a number, as a JSON value and as an
XML document. Every reading starts from the strict text; the numeric ones drop blanks at its ends.
-/

namespace Amqp

/-- The bytes of a message. -/
abbrev Payload := List UInt8

/-- What a caller publishes: a text, or bytes. -/
inductive Content where
  | text (s : String)
  | bytes (bs : List UInt8)
  deriving DecidableEq, Repr

/-- What is sent for a content: a text goes out as UTF-8, and bytes as they are. -/
def Content.payload : Content → Payload
  | text s => Utf8.encode s
  | bytes bs => bs

namespace Payload

/-- The text that the bytes encode. -/
def asText (p : Payload) : Except DecodeError String :=
  match Utf8.decode? p with
  | some s => .ok s
  | none => .error .notUtf8

/-- The integer that a text of digits denotes, if no other integer shares its number. -/
def integerOf (literal : List Char) : Except DecodeError Number :=
  if Decimal.isIntegerLiteral literal then
    match Decimal.read? literal with
    | some d =>
      if d.toNumber.isSafeInteger then .ok d.toNumber
      else .error (.integerOutOfRange (String.ofList literal))
    | none => .error (.notInteger (String.ofList literal))
  else .error (.notInteger (String.ofList literal))

/-- The finite number that a decimal literal denotes. -/
def numberOf (literal : List Char) : Except DecodeError Number :=
  match Decimal.read? literal with
  | some d =>
    if d.toNumber.isFinite then .ok d.toNumber
    else .error (.numberOutOfRange (String.ofList literal))
  | none => .error (.notNumber (String.ofList literal))

/-- The payload as an integer. -/
def asInt (p : Payload) : Except DecodeError Number := do
  let s ← p.asText
  integerOf (Text.trimChars s.toList)

/-- The payload as a finite number. -/
def asFloat (p : Payload) : Except DecodeError Number := do
  let s ← p.asText
  numberOf (Text.trimChars s.toList)

/-- The payload as a JSON value. -/
def asJson (p : Payload) : Except DecodeError Value := do
  let s ← p.asText
  match Json.parse? s with
  | some v => .ok v
  | none => .error .notJson

/-- The payload as an XML document. -/
def asXml (p : Payload) : Except DecodeError Value := do
  let s ← p.asText
  match Xml.parse s with
  | .ok v => .ok v
  | .error failure => .error (.notXml failure)

/-- The ways to look at a payload. -/
inductive View where
  | bytes
  | text
  | int
  | float
  | json
  | xml
  deriving DecidableEq, Repr

/-- The payload in the given view. -/
def view (p : Payload) : View → Except DecodeError Value
  | .bytes => .ok (.bytes p)
  | .text => p.asText.map .text
  | .int => p.asInt.map .number
  | .float => p.asFloat.map .number
  | .json => p.asJson
  | .xml => p.asXml

/-- The payload with one byte replaced. -/
def setByte (p : Payload) (i : Nat) (b : UInt8) : Payload := p.set i b

end Payload

end Amqp
