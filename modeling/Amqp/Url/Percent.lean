import Amqp.Text.Utf8

/-!
# Percent encoding

Characters that a part of a URL must not hold are written as the percent-encoded bytes of their
UTF-8 form. Each part has a set of such characters; the percent sign is in none of them, so text
that is encoded already stays as it is.
-/

namespace Amqp.Url

/-- An upper-case hexadecimal digit. -/
def hexDigit (n : Nat) : Char := if n < 10 then Char.ofNat (48 + n) else Char.ofNat (55 + n)

/-- A byte behind a percent sign. -/
def percentByte (b : UInt8) : List Char := ['%', hexDigit (b.toNat / 16), hexDigit (b.toNat % 16)]

/-- The characters with those of the set encoded. -/
def percentEncode (set : Char → Bool) (cs : List Char) : List Char :=
  cs.flatMap fun c => if set c then (Utf8.encodeChar c).flatMap percentByte else [c]

/-- Control characters and everything beyond ASCII. -/
def controlSet (c : Char) : Bool := c.toNat < 0x20 || 0x7e < c.toNat

/-- What a fragment must not hold. -/
def fragmentSet (c : Char) : Bool := controlSet c || [' ', '"', '<', '>', '\x60'].contains c

/-- What a query must not hold. -/
def querySet (c : Char) : Bool := controlSet c || [' ', '"', '#', '<', '>'].contains c

/-- What the query of a special scheme must not hold. -/
def specialQuerySet (c : Char) : Bool := querySet c || c == '\''

/-- What a path must not hold. -/
def pathSet (c : Char) : Bool := querySet c || ['?', '\x60', '{', '}'].contains c

/-- What a user name or password must not hold. -/
def userinfoSet (c : Char) : Bool :=
  pathSet c || ['/', ':', ';', '=', '@', '[', '\\', ']', '^', '|'].contains c

/-- The value of a hexadecimal digit. -/
def hexValue? (c : Char) : Option Nat :=
  if c.isDigit then some (c.toNat - '0'.toNat)
  else if 'a' ≤ c ∧ c ≤ 'f' then some (c.toNat - 'a'.toNat + 10)
  else if 'A' ≤ c ∧ c ≤ 'F' then some (c.toNat - 'A'.toNat + 10)
  else none

/-- The bytes of the characters, where a percent sign with two digits stands for one byte. -/
def percentDecode : List Char → List UInt8
  | [] => []
  | '%' :: a :: b :: rest =>
    match hexValue? a, hexValue? b with
    | some h, some l => (h * 16 + l).toUInt8 :: percentDecode rest
    | _, _ => 0x25 :: percentDecode (a :: b :: rest)
  | c :: rest => Utf8.encodeChar c ++ percentDecode rest

end Amqp.Url
