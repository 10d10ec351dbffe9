import Amqp.Number.Binary64

/-!
# Decimal literals

A decimal literal is a sign, digits with at most one point among them, and an exponent.
`Decimal.read?` accepts the whole text or nothing, and `Decimal.toNumber` is the nearest binary64
number. All texts that this library turns into numbers go through these two functions, so one
literal always stands for one number.
-/

namespace Amqp

/-- The exact value of a decimal literal: `digits * 10 ^ exponent`. -/
structure Decimal where
  /-- A minus sign stands in front. -/
  negative : Bool
  /-- All digits, read as one natural. -/
  digits : Nat
  /-- The power of ten that the digits are multiplied by. -/
  exponent : Int
  deriving DecidableEq, Repr

namespace Decimal

/-- The natural that ASCII digits denote. -/
def digitsValue (ds : List Char) : Nat :=
  ds.foldl (fun n d => 10 * n + (d.toNat - '0'.toNat)) 0

/-- The sign in front and what follows it. -/
def takeSign : List Char → Bool × List Char
  | '-' :: rest => (true, rest)
  | '+' :: rest => (false, rest)
  | rest => (false, rest)

/-- An exponent part that fills the text: nothing, or a letter, a sign and digits. -/
def readExponent? : List Char → Option Int
  | [] => some 0
  | c :: rest =>
    if c = 'e' ∨ c = 'E' then
      let (negative, ds) := takeSign rest
      if ds ≠ [] ∧ ds.all Char.isDigit then
        some (if negative then -(digitsValue ds : Int) else digitsValue ds)
      else none
    else none

/-- The decimal of its parts. -/
def ofParts (negative : Bool) (whole fraction : List Char) (exponent : Int) : Decimal :=
  ⟨negative, digitsValue (whole ++ fraction), exponent - fraction.length⟩

/-- A literal without its sign. -/
def readUnsigned? (negative : Bool) (cs : List Char) : Option Decimal :=
  let whole := cs.takeWhile Char.isDigit
  match cs.dropWhile Char.isDigit with
  | '.' :: rest =>
    let fraction := rest.takeWhile Char.isDigit
    if whole = [] ∧ fraction = [] then none
    else (readExponent? (rest.dropWhile Char.isDigit)).map (ofParts negative whole fraction)
  | rest =>
    if whole = [] then none else (readExponent? rest).map (ofParts negative whole [])

/-- A whole text that is one decimal literal. -/
def read? (cs : List Char) : Option Decimal :=
  let (negative, rest) := takeSign cs
  readUnsigned? negative rest

/-- A sign and at least one digit, and nothing else. -/
def isIntegerLiteral (cs : List Char) : Bool :=
  let ds := (takeSign cs).2
  ds ≠ [] && ds.all Char.isDigit

/-- The nearest number. Beyond `10 ^ 400`, and below `10 ^ -400`, only the sign is left. -/
def toNumber (d : Decimal) : Number :=
  if d.digits = 0 then .finite d.negative 0 Number.leastExponent
  else if 400 < d.exponent then .infinite d.negative
  else if d.exponent < -(400 + d.digits.log2 : Int) then .finite d.negative 0 Number.leastExponent
  else .ofRatio d.negative (Number.scale 10 d.digits d.exponent)
    (Number.scale 10 1 (-d.exponent))

end Decimal

end Amqp
