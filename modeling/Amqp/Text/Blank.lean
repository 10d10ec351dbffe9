/-!
# Blank characters

Which characters count as white space at the ends of a text, and the text without them. The set is
the property `White_Space` without the next-line control, plus the byte order mark.
-/

namespace Amqp.Text

/-- The characters dropped at either end of a text. -/
def isBlank (c : Char) : Bool :=
  (9 ≤ c.val && c.val ≤ 13) || c == ' ' || c == '\u00a0' || c == '\u1680' ||
    (0x2000 ≤ c.val && c.val ≤ 0x200a) || c == '\u2028' || c == '\u2029' || c == '\u202f' ||
    c == '\u205f' || c == '\u3000' || c == '\ufeff'

/-- The characters left once blanks are dropped at both ends. -/
def trimChars (cs : List Char) : List Char :=
  ((cs.dropWhile isBlank).reverse.dropWhile isBlank).reverse

/-- The text without blanks at its ends. -/
def trim (s : String) : String := String.ofList (trimChars s.toList)

/-- A text of blanks alone. -/
def isBlankText (s : String) : Bool := s.toList.all isBlank

end Amqp.Text
