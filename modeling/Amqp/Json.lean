import Amqp.Number.Decimal
import Amqp.Text.Units
import Amqp.Value

/-!
# JSON documents

`Json.parse?` reads a whole text as one JSON value. Numbers are the nearest binary64 numbers, so a
literal that is too large is infinite; of fields with one name the last counts; escapes of half a
surrogate pair read as U+FFFD. Blanks between tokens are space, tab, line feed and carriage return.
-/

namespace Amqp.Json

/-- A blank between two tokens. -/
def isBlank (c : Char) : Bool := c == ' ' || c == '\t' || c == '\n' || c == '\r'

/-- What follows the blanks. -/
def skipBlanks (cs : List Char) : List Char := cs.dropWhile isBlank

/-- Digits in front, at least one, and what follows them. -/
def scanDigits? (cs : List Char) : Option (List Char × List Char) :=
  match cs.takeWhile Char.isDigit with
  | [] => none
  | ds => some (ds, cs.dropWhile Char.isDigit)

/-- The whole part of a number: a zero alone, or digits that begin with no zero. -/
def scanWhole? : List Char → Option (List Char × List Char)
  | '0' :: rest => some (['0'], rest)
  | cs => scanDigits? cs

/-- The fraction of a number with its point, if there is one. -/
def scanFraction? : List Char → Option (List Char × List Char)
  | '.' :: rest => (scanDigits? rest).map fun (ds, rest) => ('.' :: ds, rest)
  | cs => some ([], cs)

/-- The exponent part of a number, if there is one. -/
def scanExponent? : List Char → Option (List Char × List Char)
  | c :: rest =>
    if c = 'e' ∨ c = 'E' then
      match rest with
      | '+' :: ds => (scanDigits? ds).map fun (ds, rest) => (c :: '+' :: ds, rest)
      | '-' :: ds => (scanDigits? ds).map fun (ds, rest) => (c :: '-' :: ds, rest)
      | ds => (scanDigits? ds).map fun (ds, rest) => (c :: ds, rest)
    else some ([], c :: rest)
  | [] => some ([], [])

/-- A number literal without its sign. -/
def scanUnsigned? (cs : List Char) : Option (List Char × List Char) := do
  let (whole, cs) ← scanWhole? cs
  let (fraction, cs) ← scanFraction? cs
  let (exponent, cs) ← scanExponent? cs
  return (whole ++ fraction ++ exponent, cs)

/-- A number literal. -/
def scanNumber? : List Char → Option (List Char × List Char)
  | '-' :: rest => (scanUnsigned? rest).map fun (token, rest) => ('-' :: token, rest)
  | cs => scanUnsigned? cs

/-- The number a literal stands for, and what follows it. -/
def readNumber? (cs : List Char) : Option (Value × List Char) := do
  let (token, rest) ← scanNumber? cs
  let d ← Decimal.read? token
  return (.number d.toNumber, rest)

/-- The value of a hexadecimal digit. -/
def hexValue? (c : Char) : Option Nat :=
  if c.isDigit then some (c.toNat - '0'.toNat)
  else if 'a' ≤ c ∧ c ≤ 'f' then some (c.toNat - 'a'.toNat + 10)
  else if 'A' ≤ c ∧ c ≤ 'F' then some (c.toNat - 'A'.toNat + 10)
  else none

/-- The unit that four hexadecimal digits denote. -/
def hexUnit? (a b c d : Char) : Option UInt16 := do
  let a ← hexValue? a
  let b ← hexValue? b
  let c ← hexValue? c
  let d ← hexValue? d
  return (((a * 16 + b) * 16 + c) * 16 + d).toUInt16

/-- The character that a short escape stands for. -/
def shortEscape? (c : Char) : Option Char :=
  match c with
  | '"' => some '"'
  | '\\' => some '\\'
  | '/' => some '/'
  | 'b' => some '\x08'
  | 'f' => some '\x0c'
  | 'n' => some '\n'
  | 'r' => some '\r'
  | 't' => some '\t'
  | _ => none

/-- The units of a string up to its closing quote, put after those already read (last one first). -/
def readUnits? (read : List UInt16) : List Char → Option (List UInt16 × List Char)
  | [] => none
  | '"' :: rest => some (read.reverse, rest)
  | '\\' :: 'u' :: a :: b :: c :: d :: rest =>
    match hexUnit? a b c d with
    | some u => readUnits? (u :: read) rest
    | none => none
  | '\\' :: c :: rest =>
    match shortEscape? c with
    | some e => readUnits? (e.toNat.toUInt16 :: read) rest
    | none => none
  | c :: rest =>
    if c.toNat < 0x20 ∨ c = '\\' then none
    else readUnits? ((Text.charUnits c).reverse ++ read) rest

/-- The string after an opening quote. -/
def readString? (cs : List Char) : Option (String × List Char) :=
  (readUnits? [] cs).map fun (us, rest) => (Text.ofUnits us, rest)

mutual

/-- One value; each nested value spends one unit of the fuel. -/
def readValue? : Nat → List Char → Option (Value × List Char)
  | 0, _ => none
  | fuel + 1, cs =>
    match skipBlanks cs with
    | '{' :: rest =>
      match skipBlanks rest with
      | '}' :: rest => some (.table [], rest)
      | rest => readFields? fuel [] rest
    | '[' :: rest =>
      match skipBlanks rest with
      | ']' :: rest => some (.list [], rest)
      | rest => readElements? fuel [] rest
    | '"' :: rest => (readString? rest).map fun (s, rest) => (.text s, rest)
    | 't' :: 'r' :: 'u' :: 'e' :: rest => some (.bool true, rest)
    | 'f' :: 'a' :: 'l' :: 's' :: 'e' :: rest => some (.bool false, rest)
    | 'n' :: 'u' :: 'l' :: 'l' :: rest => some (.null, rest)
    | rest => readNumber? rest

/-- The elements of a list up to its bracket, after those already read (last one first). -/
def readElements? : Nat → List Value → List Char → Option (Value × List Char)
  | 0, _, _ => none
  | fuel + 1, read, cs =>
    match readValue? fuel cs with
    | none => none
    | some (v, rest) =>
      match skipBlanks rest with
      | ',' :: rest => readElements? fuel (v :: read) rest
      | ']' :: rest => some (.list (v :: read).reverse, rest)
      | _ => none

/-- The fields of a table up to its brace, after those already read. -/
def readFields? : Nat → List (String × Value) → List Char → Option (Value × List Char)
  | 0, _, _ => none
  | fuel + 1, read, cs =>
    match skipBlanks cs with
    | '"' :: rest =>
      match readString? rest with
      | none => none
      | some (name, rest) =>
        match skipBlanks rest with
        | ':' :: rest =>
          match readValue? fuel rest with
          | none => none
          | some (v, rest) =>
            match skipBlanks rest with
            | ',' :: rest => readFields? fuel (Value.putField name v read) rest
            | '}' :: rest => some (.table (Value.putField name v read), rest)
            | _ => none
        | _ => none
    | _ => none

end

/-- The one value that fills the text. -/
def parseChars? (cs : List Char) : Option Value :=
  match readValue? (cs.length + 1) cs with
  | some (v, rest) => if (skipBlanks rest).isEmpty then some v else none
  | none => none

/-- The JSON value of a text. -/
def parse? (s : String) : Option Value := parseChars? s.toList

end Amqp.Json
