/-!
# Binary64 numbers as exact values

A finite number is a sign, a mantissa and a power of two, so every comparison and conversion is
exact integer arithmetic. `Number.ofRatio` rounds a quotient of naturals to the nearest number, a
tie to the even mantissa; every finite number of this library is built by it and therefore has the
one form with a mantissa of 53 bits, or fewer bits at the least exponent.
-/

namespace Amqp

/-- A binary64 number. -/
inductive Number where
  /-- The result that is no number. -/
  | nan
  /-- A magnitude beyond the greatest finite one. -/
  | infinite (negative : Bool)
  /-- The magnitude `mantissa * 2 ^ exponent`. -/
  | finite (negative : Bool) (mantissa : Nat) (exponent : Int)
  deriving DecidableEq, Repr, Inhabited

namespace Number

/-- The exponent of the least positive number. -/
def leastExponent : Int := -1074

/-- The exponent of the greatest finite numbers. -/
def greatestExponent : Int := 971

/-- The natural `n * b ^ k`; an exponent below zero counts as zero. -/
def scale (b n : Nat) (k : Int) : Nat := n * Nat.pow b k.toNat

/-- The quotient rounded to the nearest natural, a tie to the even one. -/
def roundQuotient (num den : Nat) : Nat :=
  let q := num / den
  let r := num % den
  if 2 * r < den then q else if den < 2 * r then q + 1 else q + q % 2

/-- The greatest power of two not above a positive quotient. -/
def floorLog2 (num den : Nat) : Int :=
  let k : Int := (num.log2 : Int) - den.log2
  if scale 2 den k ≤ scale 2 num (-k) then k else k - 1

/-- The finite number of that magnitude, or the infinity above all of them. -/
def bounded (negative : Bool) (mantissa : Nat) (exponent : Int) : Number :=
  if greatestExponent < exponent then infinite negative else finite negative mantissa exponent

/-- The number nearest to the quotient `num / den`, for a positive `den`. -/
def ofRatio (negative : Bool) (num den : Nat) : Number :=
  if num = 0 then finite negative 0 leastExponent
  else
    let e := max (floorLog2 num den - 52) leastExponent
    let m := roundQuotient (scale 2 num (-e)) (scale 2 den e)
    if m = Nat.pow 2 53 then bounded negative (Nat.pow 2 52) (e + 1) else bounded negative m e

/-- The number nearest to a natural. -/
def ofNat (n : Nat) : Number := ofRatio false n 1

/-- The number nearest to an integer. -/
def ofInt (n : Int) : Number := ofRatio (n < 0) n.natAbs 1

/-- Zero with the sign that compares equal to it dropped. -/
def dropZeroSign : Number → Number
  | finite _ 0 e => finite false 0 e
  | x => x

/-- Neither infinite nor no number. -/
def isFinite : Number → Bool
  | finite .. => true
  | _ => false

/-- The integer of that sign and magnitude. -/
def signed (negative : Bool) (m : Nat) : Int := if negative then -m else m

/-- The integer a number stands for, if it is one; both zeros stand for zero. -/
def toInt? : Number → Option Int
  | finite negative m e =>
    if m % scale 2 1 (-e) = 0 then some (signed negative (scale 2 m e / scale 2 1 (-e))) else none
  | _ => none

/-- The number without its fraction. -/
def truncate : Number → Number
  | finite negative m e => ofRatio negative (scale 2 m e / scale 2 1 (-e)) 1
  | x => x

/-- A finite number without a fraction. -/
def isInteger (x : Number) : Bool := x.toInt?.isSome

/-- The greatest natural below which no two integers share a number. -/
def greatestSafe : Nat := Nat.pow 2 53 - 1

/-- An integer whose number stands for no other integer. -/
def isSafeInteger (x : Number) : Bool :=
  match x.toInt? with
  | some n => n.natAbs ≤ greatestSafe
  | none => false

/-- Strictly below; nothing is below or above what is no number. -/
def lt : Number → Number → Bool
  | nan, _ => false
  | _, nan => false
  | infinite a, infinite b => a && !b
  | infinite a, finite .. => a
  | finite .., infinite b => !b
  | finite s m e, finite t n f =>
    signed s (scale 2 m (e - f)) < signed t (scale 2 n (f - e))

/-- Not zero and not what is no number. -/
def isTruthy : Number → Bool
  | nan => false
  | finite _ 0 _ => false
  | _ => true

/-- The sum of two finite numbers, rounded to the nearest one. Only two negative zeros add up to a
negative zero. -/
def addFinite (s : Bool) (m : Nat) (e : Int) (t : Bool) (n : Nat) (f : Int) : Number :=
  let sum := signed s (scale 2 m (e - f)) + signed t (scale 2 n (f - e))
  if sum = 0 then finite (s && t && m == 0 && n == 0) 0 leastExponent
  else ofRatio (sum < 0) (scale 2 sum.natAbs (min e f)) (scale 2 1 (-min e f))

/-- The sum of two numbers. -/
def add : Number → Number → Number
  | finite s m e, finite t n f => addFinite s m e t n f
  | infinite a, infinite b => if a = b then infinite a else nan
  | infinite a, finite .. => infinite a
  | finite .., infinite b => infinite b
  | nan, _ => nan
  | _, nan => nan

/-- At or below; nothing is at, below or above what is no number. -/
def le (x y : Number) : Bool := x.lt y || (x.dropZeroSign == y.dropZeroSign && x != nan)

end Number

end Amqp
