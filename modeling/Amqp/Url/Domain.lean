import Amqp.Text.Split
import Amqp.Url.Label
import Amqp.Url.Mapping
import Amqp.Url.Punycode

/-!
# Domains in ASCII

A domain is read without regard to case and to forms of a character that mean the same, and written
in ASCII: every label with other characters is encoded. Each label has to be valid, be it written as
it is or encoded. Of ASCII only the capital letters have another form.
-/

namespace Amqp.Url

/-- A text in ASCII. -/
def isAscii (cs : List Char) : Bool := cs.all (·.toNat < 128)

/-- Lower-case letters for the upper-case ones of ASCII. -/
def lower (cs : List Char) : List Char := cs.map Char.toLower

/-- The characters of a domain in their composed form, unless one of them is refused. -/
def foldDomain? (cs : List Char) : Option (List Char) :=
  if isAscii cs then some (lower cs) else (mapDomain? cs).map Text.compose

/-- Whether mapping keeps a character as it is. -/
def isKept (c : Char) : Bool :=
  if c.toNat < 128 then !c.isUpper else mapDomainChar? c == some [c]

/-- Whether a label with characters beyond ASCII is valid: it holds no character that would be
replaced, is in its composed form, and can be read as one word. -/
def isValidLabel (label : List Char) : Bool :=
  label.all isKept && Text.compose label == label && isLabel label

/-- Whether what stands behind the mark of an encoded label encodes one: with characters beyond
ASCII, and valid. -/
def isEncodedLabel (code : List Char) : Bool :=
  match Punycode.decode? code with
  | none => false
  | some label => !isAscii label && isValidLabel label

/-- A label in ASCII, if it is valid. -/
def labelToAscii? (label : List Char) : Option (List Char) :=
  if isAscii label then
    if !label.all isKept then none
    else if encodedMark.isPrefixOf label && !isEncodedLabel (label.drop encodedMark.length) then
      none
    else some label
  else if isValidLabel label then some (Punycode.encode label)
  else none

/-- A domain in ASCII. -/
def domainToAscii? (cs : List Char) : Option (List Char) := do
  let folded ← foldDomain? cs
  let labels ← (Text.splitOn '.' folded).mapM labelToAscii?
  return ['.'].intercalate labels

end Amqp.Url
