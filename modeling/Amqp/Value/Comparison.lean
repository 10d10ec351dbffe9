import Amqp.Number.Literal
import Amqp.Text.Units
import Amqp.Value

/-!
# Comparing values

Values without parts are the same key, or equal, or one before the other. A value with parts, as it
comes from outside, is never the same as another one, and it is ordered by its text.
-/

namespace Amqp

/-- Whether a number is below an integer. -/
def Number.ltInt : Number → Int → Bool
  | nan, _ => false
  | infinite negative, _ => negative
  | finite s m e, n => signed s (scale 2 m e) < n * (scale 2 1 (-e) : Nat)

/-- Whether an integer is below a number. -/
def Number.intLt : Int → Number → Bool
  | _, nan => false
  | _, infinite negative => !negative
  | n, finite s m e => n * (scale 2 1 (-e) : Nat) < signed s (scale 2 m e)

namespace Value

/-- Whether two values are one key: equal values without parts, where both zeros are one. -/
def sameKey : Value → Value → Bool
  | undefined, undefined => true
  | null, null => true
  | bool a, bool b => a == b
  | number a, number b => a.dropZeroSign == b.dropZeroSign
  | bigint a, bigint b => a == b
  | text a, text b => a == b
  | _, _ => false

/-- Whether two values are equal. What is no number is not even equal to itself. -/
def isEqual : Value → Value → Bool
  | number .nan, number .nan => false
  | v, w => v.sameKey w

/-- The number that a value is counted as. -/
def toNumber : Value → Number
  | undefined => .nan
  | null => .ofNat 0
  | bool b => .ofNat b.toNat
  | number n => n
  | bigint n => .ofInt n
  | v => (v.text?.map Number.ofText).getD .nan

/-- Whether the units of one text come before those of another. -/
def unitsBefore : List UInt16 → List UInt16 → Bool
  | _, [] => false
  | [], _ :: _ => true
  | a :: as, b :: bs => a < b || (a == b && unitsBefore as bs)

/-- The integer that a text writes: digits, perhaps with a sign, or digits to another base. Blanks
at the ends do not count, and nothing at all is zero. -/
def integerOf? (s : String) : Option Int :=
  match Text.trimChars s.toList with
  | [] => some 0
  | '0' :: b :: rest =>
    if b = 'x' ∨ b = 'X' then (Number.readBase? 16 rest).map Int.ofNat
    else if b = 'o' ∨ b = 'O' then (Number.readBase? 8 rest).map Int.ofNat
    else if b = 'b' ∨ b = 'B' then (Number.readBase? 2 rest).map Int.ofNat
    else (Number.readBase? 10 (b :: rest)).map Int.ofNat
  | cs =>
    let (negative, ds) := Decimal.takeSign cs
    (Number.readBase? 10 ds).map (Number.signed negative)

/-- A value as it is compared: one with parts is its text. -/
def comparable : Value → Except Value Value
  | bytes bs => (bytes bs).textOrFault.map text
  | list xs => (list xs).textOrFault.map text
  | table fields => (table fields).textOrFault.map text
  | error name message fields => (error name message fields).textOrFault.map text
  | v => .ok v

/-- Whether a value without parts comes before another one: texts by their units, everything else
as numbers, of which integers are exact. -/
def plainBefore : Value → Value → Bool
  | text a, text b => unitsBefore (Text.units a) (Text.units b)
  | bigint a, bigint b => a < b
  | bigint a, text b => ((integerOf? b).map fun b => decide (a < b)).getD false
  | text a, bigint b => ((integerOf? a).map fun a => decide (a < b)).getD false
  | bigint a, b => Number.intLt a b.toNumber
  | a, bigint b => a.toNumber.ltInt b
  | a, b => a.toNumber.lt b.toNumber

/-- Whether a value comes before another one; a value that has no text cannot be compared. -/
def before (v w : Value) : Except Value Bool := do
  let a ← v.comparable
  let b ← w.comparable
  return a.plainBefore b

end Value

end Amqp
