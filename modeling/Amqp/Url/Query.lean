import Amqp.Text.Split
import Amqp.Url.Percent

/-!
# Query pairs

A query is a list of names and values. Reading it never fails; writing it keeps letters, digits and
four marks, writes a plus sign for a space, and percent-encodes the bytes of everything else.
-/

namespace Amqp.Url

/-- A name and its value. -/
abbrev Pair := List Char × List Char

/-- The text that a name or value stands for. -/
def decodePart (cs : List Char) : List Char :=
  Utf8.decodeLenient (percentDecode (cs.map fun c => if c = '+' then ' ' else c))

/-- The pair that one part of a query stands for. -/
def decodePair (cs : List Char) : Pair :=
  (decodePart (cs.takeWhile (· != '=')), decodePart ((cs.dropWhile (· != '=')).drop 1))

/-- The pairs of a query; empty parts do not count. -/
def pairsOf (query : List Char) : List Pair :=
  ((Text.splitOn '&' query).filter (!·.isEmpty)).map decodePair

/-- Characters that are written as they are. -/
def isPlainPart (c : Char) : Bool := c.isAlphanum || ['*', '-', '.', '_'].contains c

/-- A name or value as it is written. -/
def encodePart (cs : List Char) : List Char :=
  cs.flatMap fun c =>
    if c = ' ' then ['+']
    else if isPlainPart c then [c]
    else (Utf8.encodeChar c).flatMap percentByte

/-- A pair as it is written. -/
def encodePair (p : Pair) : List Char := encodePart p.1 ++ '=' :: encodePart p.2

/-- The query of a list of pairs. -/
def queryOf (pairs : List Pair) : List Char := ['&'].intercalate (pairs.map encodePair)

end Amqp.Url
