import Amqp.Text.Blank
import Amqp.Text.Units

/-!
# XML sources

A document is read as an array of units, so that columns and lengths count units. This module holds
the access to it, the scan for the first index that satisfies a test, positions, and the classes of
characters that names are made of.
-/

namespace Amqp.Xml

/-- The units of a document. -/
abbrev Source := Array UInt16

/-- The document of a text. -/
def Source.ofText (s : String) : Source := (Text.units s).toArray

/-- The text of a part of a document. -/
def Source.text (s : Source) : String := Text.ofUnits s.toList

/-- The part from one index up to another. -/
def Source.part (s : Source) (start stop : Nat) : Source := s.extract start stop

/-- The unit of a character of the basic plane. -/
def unitOf (c : Char) : UInt16 := c.toNat.toUInt16

/-- Whether the character stands at the index. -/
def Source.is (s : Source) (i : Nat) (c : Char) : Bool := s[i]? == some (unitOf c)

/-- Whether one of the characters stands at the index. -/
def Source.isOneOf (s : Source) (i : Nat) (cs : List Char) : Bool := cs.any (s.is i)

/-- Whether the characters stand one after another from the index on. -/
def Source.hasAt (s : Source) (i : Nat) : List Char → Bool
  | [] => true
  | c :: cs => s.is i c && s.hasAt (i + 1) cs

/-- The first index from `i` on, below `size`, that satisfies the test; else `size`. -/
def scan (stop : Nat → Bool) (size i : Nat) : Nat :=
  if _h : i < size then if stop i then i else scan stop size (i + 1) else i
termination_by size - i

/-- A scan never goes back. -/
theorem le_scan (stop : Nat → Bool) (size i : Nat) : i ≤ scan stop size i := by
  fun_induction scan stop size i <;> omega

/-- The blanks that separate parts of a tag. -/
def isSpaceUnit (u : UInt16) : Bool := u == 0x20 || u == 0x09 || u == 0x0a || u == 0x0d

/-- The blanks in the wide sense, which count at the ends of a text. -/
def isBlankUnit (u : UInt16) : Bool :=
  !(Text.isHighUnit u || Text.isLowUnit u) && Text.isBlank (Char.ofNat u.toNat)

/-- Whether a separating blank stands at the index. -/
def Source.isSpace (s : Source) (i : Nat) : Bool := (s[i]?.map isSpaceUnit).getD false

/-- Whether a blank in the wide sense stands at the index. -/
def Source.isBlank (s : Source) (i : Nat) : Bool := (s[i]?.map isBlankUnit).getD false

/-- The part without blanks in front. -/
def Source.trimStart (s : Source) : Source := s.extract (scan (!s.isBlank ·) s.size 0) s.size

/-- The part without blanks at its ends. -/
def Source.trim (s : Source) : Source :=
  (s.trimStart.toList.reverse.dropWhile isBlankUnit).reverse.toArray

/-- Whether the last character is this one. -/
def Source.endsWith (s : Source) (c : Char) : Bool := s.back? == some (unitOf c)

/-- Where something stands in a document. -/
structure Position where
  /-- The line, from one. -/
  line : Nat
  /-- The column, from one. -/
  column : Nat
  deriving DecidableEq, Repr

/-- The position of an index. Lines end with a line feed. -/
def Source.position (s : Source) (i : Nat) : Position :=
  let before := (s.extract 0 i).toList
  let last := before.reverse.takeWhile (· != 0x0a)
  ⟨before.count 0x0a + 1, last.length + 1⟩

/-- Whether the unit lies in one of the ranges. -/
def inRanges (ranges : List (UInt16 × UInt16)) (u : UInt16) : Bool :=
  ranges.any fun (low, high) => low ≤ u && u ≤ high

/-- The units that a name may begin with. -/
def nameStartRanges : List (UInt16 × UInt16) :=
  [(0x3a, 0x3a), (0x41, 0x5a), (0x61, 0x7a), (0x5f, 0x5f), (0xc0, 0xd6), (0xd8, 0xf6),
    (0xf8, 0x2ff), (0x370, 0x37d), (0x37f, 0x1fff), (0x200c, 0x200d), (0x2070, 0x218f),
    (0x2c00, 0x2fef), (0x3001, 0xd7ff), (0xf900, 0xfdcf), (0xfdf0, 0xfffd)]

/-- The units that a name may hold besides. -/
def nameExtraRanges : List (UInt16 × UInt16) :=
  [(0x2d, 0x2e), (0x30, 0x39), (0xb7, 0xb7), (0x300, 0x36f), (0x203f, 0x2040)]

/-- Whether the whole part is a name. -/
def Source.isName (s : Source) : Bool :=
  match s.toList with
  | [] => false
  | u :: rest =>
    inRanges nameStartRanges u &&
      rest.all fun v => inRanges nameStartRanges v || inRanges nameExtraRanges v

end Amqp.Xml
