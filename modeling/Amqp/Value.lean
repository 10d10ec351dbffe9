import Amqp.Number.Shortest
import Amqp.Text.Utf8

/-!
# Values of no fixed type

Payload documents, header tables and whatever a peer throws are values of no fixed type. Every value
but a table that hides its own conversion has a text, and every value that is given has fields,
though most of them are undefined.
-/

namespace Amqp

/-- A value that a caller, a peer or a document supplies. -/
inductive Value where
  /-- A value that was never given. -/
  | undefined
  | null
  | bool (b : Bool)
  | number (n : Number)
  /-- An integer of any size. -/
  | bigint (n : Int)
  | text (s : String)
  | bytes (bs : List UInt8)
  | list (xs : List Value)
  /-- Named fields. -/
  | table (fields : List (String × Value))
  /-- A failure raised by someone else: its class, its message, and its other fields. -/
  | error (name message : String) (fields : List (String × Value))
  deriving Repr, Inhabited

namespace Value

/-- The natural as a value. -/
def ofNat (n : Nat) : Value := number (.ofNat n)

/-- The field of that name in a list of fields. -/
def fieldIn? (name : String) (fields : List (String × Value)) : Option Value :=
  (fields.find? (·.1 == name)).map (·.2)

/-- The field of that name, if the value has fields and this one among them. -/
def field? (name : String) : Value → Option Value
  | table fields => fieldIn? name fields
  | error _ _ fields => fieldIn? name fields
  | _ => none

/-- The fields with the value put at the name: in its old place, or at the end. -/
def putField (name : String) (v : Value) : List (String × Value) → List (String × Value)
  | [] => [(name, v)]
  | (k, w) :: rest => if k = name then (k, v) :: rest else (k, w) :: putField name v rest

/-- Never given at all. -/
def isUndefined : Value → Bool
  | undefined => true
  | _ => false

/-- Neither undefined nor null. -/
def isGiven : Value → Bool
  | undefined => false
  | null => false
  | _ => true

/-- Neither nothing, nor false, nor zero, nor empty. -/
def isTruthy : Value → Bool
  | undefined => false
  | null => false
  | bool b => b
  | number n => n.isTruthy
  | bigint n => n != 0
  | text s => s != ""
  | _ => true

/-- The value, or the default for one that is not given. -/
def orElse (v default : Value) : Value := if v.isGiven then v else default

/-- The value, or the default for one that is undefined. -/
def ifDefined (v default : Value) : Value := if v.isUndefined then default else v

/-- The text that a failure shows inside a list. -/
def errorText (name message : String) : String :=
  if name = "" then message else if message = "" then name else name ++ ": " ++ message

/-- The bytes read as UTF-8, with U+FFFD for what is not well formed. -/
def lenientText (bs : List UInt8) : String := String.ofList (Utf8.decodeLenient bs)

mutual

/-- The text of a value. A table that carries a field under the name of the conversion has none. -/
def text? : Value → Option String
  | undefined => some "undefined"
  | null => some "null"
  | bool b => some (if b then "true" else "false")
  | number n => some n.text
  | bigint n => some (toString n)
  | text s => some s
  | bytes bs => some (lenientText bs)
  | list xs => (elementTexts? xs).map (String.intercalate ",")
  | table fields =>
    if (fieldIn? "toString" fields).isSome then none else some "[object Object]"
  | error name message fields =>
    if (fieldIn? "toString" fields).isSome then none else some (errorText name message)

/-- The texts of the elements of a list; one that is not given is empty. -/
def elementTexts? : List Value → Option (List String)
  | [] => some []
  | undefined :: xs => (elementTexts? xs).map ("" :: ·)
  | null :: xs => (elementTexts? xs).map ("" :: ·)
  | x :: xs =>
    match text? x, elementTexts? xs with
    | some t, some ts => some (t :: ts)
    | _, _ => none

end

end Value

/-- What is said of a value that has no text. -/
def noTextDetail : String := "Cannot convert object to primitive value"

/-- What is raised in place of the text of a value that has none. -/
def noTextFault : Value := .error "TypeError" noTextDetail []

/-- What is raised when a field of a value that is not given is read. -/
def missingFieldFault (v : Value) (name : String) : Value :=
  .error "TypeError" ("Cannot read properties of " ++ v.text?.getD "" ++
    " (reading '" ++ name ++ "')") []

/-- What is raised when a value is asked for an operation it does not have; the subject names the
value. -/
def missingOperationFault (subject : String) (v : Value) (operation : String) : Value :=
  if v.isGiven then .error "TypeError" (subject ++ "." ++ operation ++ " is not a function") []
  else missingFieldFault v operation

namespace Value

/-- What reading a field gives; it cannot be read off a value that is not given. -/
def read (v : Value) (name : String) : Except Value Value :=
  match v with
  | undefined => .error (missingFieldFault v name)
  | null => .error (missingFieldFault v name)
  | error name' message fields =>
    .ok (if name = "name" then text name'
      else if name = "message" then text message
      else (fieldIn? name fields).getD undefined)
  | v => .ok ((v.field? name).getD undefined)

/-- The field of that name; it is undefined in a value that has none. -/
def field (v : Value) (name : String) : Value :=
  match v.read name with
  | .ok w => w
  | .error _ => undefined

/-- The text of a value, which it has to have. -/
def textOrFault (v : Value) : Except Value String :=
  match v.text? with
  | some t => .ok t
  | none => .error noTextFault

end Value

end Amqp
