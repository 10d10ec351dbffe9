/-!
# Sixteen-bit units

Lengths, cuts and columns of a text count its UTF-16 units, so a character outside the basic plane
counts twice. A unit that stands alone, because a cut went through a character, reads as U+FFFD.
-/

namespace Amqp.Text

/-- How many units a character takes. -/
def charUnitCount (c : Char) : Nat := if c.toNat < 0x10000 then 1 else 2

/-- The units of one character. -/
def charUnits (c : Char) : List UInt16 :=
  if c.toNat < 0x10000 then [c.toNat.toUInt16]
  else
    let v := c.toNat - 0x10000
    [(0xd800 + v / 1024).toUInt16, (0xdc00 + v % 1024).toUInt16]

/-- The units of a text. -/
def units (s : String) : List UInt16 := s.toList.flatMap charUnits

/-- How many units a text takes. -/
def unitCount (s : String) : Nat := s.toList.foldl (fun n c => n + charUnitCount c) 0

/-- A unit that opens a pair. -/
def isHighUnit (u : UInt16) : Bool := 0xd800 ≤ u && u < 0xdc00

/-- A unit that closes a pair. -/
def isLowUnit (u : UInt16) : Bool := 0xdc00 ≤ u && u < 0xe000

/-- The characters of the units; a unit of a broken pair reads as U+FFFD. -/
def charsOfUnits : List UInt16 → List Char
  | [] => []
  | [u] => [if isHighUnit u || isLowUnit u then '\ufffd' else Char.ofNat u.toNat]
  | u :: v :: rest =>
    if isHighUnit u && isLowUnit v then
      Char.ofNat (0x10000 + (u.toNat - 0xd800) * 1024 + (v.toNat - 0xdc00)) :: charsOfUnits rest
    else if isHighUnit u || isLowUnit u then '\ufffd' :: charsOfUnits (v :: rest)
    else Char.ofNat u.toNat :: charsOfUnits (v :: rest)

/-- The text of the units. -/
def ofUnits (us : List UInt16) : String := String.ofList (charsOfUnits us)

/-- The first units of a text. -/
def takeUnits (n : Nat) (s : String) : String := ofUnits ((units s).take n)

end Amqp.Text
