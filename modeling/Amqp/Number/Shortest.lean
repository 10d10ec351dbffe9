import Amqp.Number.Binary64

/-!
# Shortest decimal text

The text of a number has the fewest digits that read back to it, and of those the nearest. The
search runs over decimal grids of one, two, … digits and tests the two neighbours of the value on
each grid in exact arithmetic.
-/

namespace Amqp

namespace Number

/-- Digits and the position of the point: the value is `0.digits * 10 ^ point`. -/
structure Digits where
  /-- The digits as one natural. -/
  digits : Nat
  /-- How many digits stand before the point, if positive. -/
  point : Int
  deriving DecidableEq, Repr

/-- Whether `a * 10 ^ i` is below, at or above `n * 2 ^ j`. -/
def compareScaled (a : Nat) (i : Int) (n : Nat) (j : Int) : Ordering :=
  compare (scale 2 (scale 10 a i) (-j)) (scale 10 (scale 2 n j) (-i))

/-- Whether the decimal `d * 10 ^ i` rounds to the magnitude `m * 2 ^ e`. -/
def readsBack (m : Nat) (e : Int) (d : Nat) (i : Int) : Bool :=
  let low := if m = Nat.pow 2 52 ∧ leastExponent < e then 4 * m - 1 else 4 * m - 2
  let closed := m % 2 == 0
  let atLow := compareScaled d i low (e - 2)
  let atHigh := compareScaled d i (4 * m + 2) (e - 2)
  (atLow == .gt || (closed && atLow == .eq)) && (atHigh == .lt || (closed && atHigh == .eq))

/-- The least `k` with `m * 2 ^ e < 10 ^ k`, for a positive `m`. -/
def decimalScale (m : Nat) (e : Int) : Int :=
  let k := ((m.log2 : Int) + e) * 30103 / 100000
  if compareScaled 1 k m e == .gt then k
  else if compareScaled 1 (k + 1) m e == .gt then k + 1
  else k + 2

/-- The neighbour below on the grid of step `10 ^ i`. -/
def gridFloor (m : Nat) (e : Int) (i : Int) : Nat :=
  scale 10 (scale 2 m e) (-i) / scale 10 (scale 2 1 (-e)) i

/-- The neighbour on the grid that reads back; of two, the nearer one. -/
def onGrid? (m : Nat) (e : Int) (i : Int) : Option Nat :=
  let d := gridFloor m e i
  match readsBack m e d i, readsBack m e (d + 1) i with
  | true, true =>
    match compareScaled (2 * d + 1) i m (e + 1) with
    | .gt => some d
    | .lt => some (d + 1)
    | .eq => some (if d % 2 = 0 then d else d + 1)
  | true, false => some d
  | false, true => some (d + 1)
  | false, false => none

/-- The first grid with a hit, trying `count` more lengths from `length` on. -/
def searchGrid (m : Nat) (e point : Int) (length : Nat) : Nat → Digits
  | 0 => ⟨gridFloor m e (point - length), point⟩
  | count + 1 =>
    match onGrid? m e (point - length) with
    | some d => if d = Nat.pow 10 length then ⟨1, point + 1⟩ else ⟨d, point⟩
    | none => searchGrid m e point (length + 1) count

/-- The shortest digits of a positive magnitude. -/
def shortest (m : Nat) (e : Int) : Digits := searchGrid m e (decimalScale m e) 1 17

/-- The text of a power of ten with its sign. -/
def exponentText (k : Int) : String :=
  if k < 0 then "e-" ++ toString k.natAbs else "e+" ++ toString k.natAbs

/-- Positional from `10 ^ -7` up to `10 ^ 21`, and scientific outside. -/
def Digits.text (d : Digits) : String :=
  let ds := (toString d.digits).toList
  let length : Int := ds.length
  if length ≤ d.point ∧ d.point ≤ 21 then
    String.ofList (ds ++ List.replicate (d.point - length).toNat '0')
  else if 0 < d.point ∧ d.point ≤ 21 then
    String.ofList (ds.take d.point.toNat ++ '.' :: ds.drop d.point.toNat)
  else if -6 < d.point ∧ d.point ≤ 0 then
    String.ofList ('0' :: '.' :: (List.replicate (-d.point).toNat '0' ++ ds))
  else
    match ds with
    | [] => "0"
    | [c] => String.ofList [c] ++ exponentText (d.point - 1)
    | c :: rest => String.ofList (c :: '.' :: rest) ++ exponentText (d.point - 1)

/-- The text of a number; a zero has no sign. -/
def text : Number → String
  | nan => "NaN"
  | infinite false => "Infinity"
  | infinite true => "-Infinity"
  | finite _ 0 _ => "0"
  | finite false m e => (shortest m e).text
  | finite true m e => "-" ++ (shortest m e).text

end Number

end Amqp
