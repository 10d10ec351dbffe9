import Amqp.Number.Shortest
import Amqp.Url.Domain
import Amqp.Url.Percent
import Amqp.Url.Query

/-!
# Hosts

A host is an address of version four or six, a domain, or, for schemes that give hosts no meaning,
any text without forbidden characters. Each kind has one written form.
-/

namespace Amqp.Url

/-- The host of a URL. -/
inductive Host where
  /-- A domain in lower case. -/
  | domain (name : List Char)
  /-- A percent-encoded text without a meaning of its own; it may be empty. -/
  | plain (text : List Char)
  | ipv4 (address : Nat)
  /-- Eight pieces of sixteen bits. -/
  | ipv6 (pieces : List Nat)
  deriving DecidableEq, Repr

/-- Characters that no host holds. -/
def isForbiddenHostChar (c : Char) : Bool :=
  ['\x00', '\t', '\n', '\x0d', ' ', '#', '/', ':', '<', '>', '?', '@', '[', '\\', ']', '^',
    '|'].contains c

/-- Characters that no domain holds. -/
def isForbiddenDomainChar (c : Char) : Bool :=
  isForbiddenHostChar c || c.toNat < 0x20 || c == '%' || c.toNat == 0x7f

/-- The value of digits in the base. -/
def valueInBase? (base : Nat) (cs : List Char) : Option Nat :=
  cs.foldl (fun n? c =>
    match n?, hexValue? c with
    | some n, some d => if d < base then some (base * n + d) else none
    | _, _ => none) (some 0)

/-- One number of an address of version four: decimal, or octal or hexadecimal by its prefix. -/
def ipv4Number? (cs : List Char) : Option Nat :=
  match cs with
  | [] => none
  | '0' :: x :: rest =>
    if x = 'x' ∨ x = 'X' then valueInBase? 16 rest else valueInBase? 8 (x :: rest)
  | cs => valueInBase? 10 cs

/-- The parts of a domain without an empty last one. -/
def domainParts (cs : List Char) : List (List Char) :=
  let parts := Text.splitOn '.' cs
  if 1 < parts.length ∧ parts.getLast? = some [] then parts.dropLast else parts

/-- Whether a domain ends in a number and therefore has to be an address. -/
def endsInNumber (cs : List Char) : Bool :=
  match (domainParts cs).getLast? with
  | none => false
  | some last => (last != [] && last.all Char.isDigit) || (ipv4Number? last).isSome

/-- The address that a domain writes: each number but the last is one byte. -/
def ipv4? (cs : List Char) : Option Nat := do
  let parts := domainParts cs
  if 4 < parts.length then none
  let numbers ← parts.mapM ipv4Number?
  let last ← numbers.getLast?
  let front := numbers.dropLast
  if front.any (255 < ·) then none
  else if Nat.pow 256 (5 - numbers.length) ≤ last then none
  else
    some (front.zipIdx.foldl (fun a (n, i) => a + n * Nat.pow 256 (3 - i)) last)

/-- The four bytes of an address, as pieces of sixteen bits. -/
def ipv4Pieces? (cs : List Char) : Option (List Nat) := do
  let parts := Text.splitOn '.' cs
  if parts.length ≠ 4 then none
  let bytes ← parts.mapM fun p =>
    if p = [] ∨ !p.all Char.isDigit ∨ (1 < p.length ∧ p.head? = some '0') then none
    else (valueInBase? 10 p).bind fun n => if n ≤ 255 then some n else none
  match bytes with
  | [a, b, c, d] => some [a * 256 + b, c * 256 + d]
  | _ => none

/-- The pieces that one part between colons writes. -/
def partPieces? (isLast : Bool) (part : List Char) : Option (List Nat) :=
  if part.contains '.' then if isLast then ipv4Pieces? part else none
  else if part = [] ∨ 4 < part.length then none
  else (valueInBase? 16 part).map fun n => [n]

/-- The pieces of parts between colons; the last part may be an address of version four. -/
def piecesOf? : List (List Char) → Option (List Nat)
  | [] => some []
  | [part] => partPieces? true part
  | part :: rest => do return (← partPieces? false part) ++ (← piecesOf? rest)

/-- The pieces of a text with colons between them. -/
def pieces? (cs : List Char) : Option (List Nat) :=
  if cs.isEmpty then some [] else piecesOf? (Text.splitOn ':' cs)

/-- Splits at the first pair of colons. -/
def splitCompressed : List Char → Option (List Char × List Char)
  | [] => none
  | ':' :: ':' :: rest => some ([], rest)
  | c :: rest => (splitCompressed rest).map fun (a, b) => (c :: a, b)

/-- The address of version six between the brackets. -/
def ipv6? (cs : List Char) : Option (List Nat) :=
  match splitCompressed cs with
  | none => do
    let ps ← pieces? cs
    if ps.length = 8 then some ps else none
  | some (a, b) => do
    if a.contains '.' then none
    let front ← pieces? a
    let back ← pieces? b
    if front.length + back.length < 8 then
      some (front ++ List.replicate (8 - front.length - back.length) 0 ++ back)
    else none

/-- The host of a scheme that gives hosts a meaning. -/
def specialHost? (cs : List Char) : Option Host := do
  let ascii ← domainToAscii? (Utf8.decodeLenient (percentDecode cs))
  if ascii.isEmpty ∨ ascii.any isForbiddenDomainChar then none
  else if endsInNumber ascii then (ipv4? ascii).map .ipv4
  else some (.domain ascii)

/-- The host that the characters write. -/
def host? (special : Bool) (cs : List Char) : Option Host :=
  match cs with
  | '[' :: rest => if rest.getLast? = some ']' then (ipv6? rest.dropLast).map .ipv6 else none
  | cs =>
    if special then specialHost? cs
    else if cs.any isForbiddenHostChar then none
    else some (.plain (percentEncode controlSet cs))

/-- A natural in digits. -/
def decimalText (n : Nat) : List Char := (toString n).toList

/-- A natural in lower-case hexadecimal digits. -/
def hexText (n : Nat) : List Char := Nat.toDigits 16 n

/-- How many zeros a list begins with. -/
def zerosInFront (ps : List Nat) : Nat := (ps.takeWhile (· == 0)).length

/-- Where the first longest run of at least two zeros begins, and its length. -/
def longestZeros (ps : List Nat) : Option (Nat × Nat) :=
  (List.range ps.length).foldl (fun best i =>
    let n := zerosInFront (ps.drop i)
    match best with
    | some (_, m) => if m < n then some (i, n) else best
    | none => if 2 ≤ n then some (i, n) else none) none

/-- The pieces separated by colons. -/
def colonText (ps : List Nat) : List Char := [':'].intercalate (ps.map hexText)

/-- A host as it is written. -/
def Host.chars : Host → List Char
  | domain name => name
  | plain text => text
  | ipv4 a =>
    ['.'].intercalate ([a / 16777216, a / 65536 % 256, a / 256 % 256, a % 256].map decimalText)
  | ipv6 ps =>
    match longestZeros ps with
    | none => '[' :: colonText ps ++ [']']
    | some (i, n) =>
      '[' :: colonText (ps.take i) ++ ':' :: ':' :: colonText (ps.drop (i + n)) ++ [']']

end Amqp.Url
