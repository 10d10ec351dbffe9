import Amqp.Number.Decimal
import Amqp.Text.Blank

/-!
# Numbers from free text

How a text from the environment is read as a number: blanks at the ends do not count, nothing at all
is zero, a prefix selects base two, eight or sixteen, `Infinity` may carry a sign, and everything
else is a decimal literal or no number.
-/

namespace Amqp

namespace Number

/-- The value of a digit in bases up to sixteen. -/
def digitValue? (c : Char) : Option Nat :=
  if c.isDigit then some (c.toNat - '0'.toNat)
  else if 'a' ≤ c ∧ c ≤ 'f' then some (c.toNat - 'a'.toNat + 10)
  else if 'A' ≤ c ∧ c ≤ 'F' then some (c.toNat - 'A'.toNat + 10)
  else none

/-- A natural written in the base, with at least one digit. -/
def readBase? (base : Nat) : List Char → Option Nat
  | [] => none
  | cs => cs.foldl (fun n? c =>
      match n?, digitValue? c with
      | some n, some d => if d < base then some (base * n + d) else none
      | _, _ => none) (some 0)

/-- The number a trimmed literal stands for. -/
def ofTrimmed (cs : List Char) : Number :=
  match cs with
  | [] => ofNat 0
  | '0' :: b :: rest =>
    if b = 'x' ∨ b = 'X' then ((readBase? 16 rest).map ofNat).getD nan
    else if b = 'o' ∨ b = 'O' then ((readBase? 8 rest).map ofNat).getD nan
    else if b = 'b' ∨ b = 'B' then ((readBase? 2 rest).map ofNat).getD nan
    else ((Decimal.read? cs).map Decimal.toNumber).getD nan
  | _ =>
    let (negative, rest) := Decimal.takeSign cs
    if rest = "Infinity".toList then infinite negative
    else ((Decimal.read? cs).map Decimal.toNumber).getD nan

/-- The number a text stands for. -/
def ofText (s : String) : Number := ofTrimmed (Text.trimChars s.toList)

end Number

end Amqp
