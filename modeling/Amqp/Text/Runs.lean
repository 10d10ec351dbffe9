/-!
# Runs of characters

A property of characters is kept as a table of runs. It is written as marks: a capital letter for a
kind, and numbers to base thirty-six with points between them. The first number of a mark is the
length of its run, and every run begins where the one before it ends; anything else in the text only
divides its lines.
-/

namespace Amqp.Text

/-- Consecutive characters of one kind. -/
structure Run where
  /-- The code point of the first one. -/
  first : Nat
  kind : Char
  /-- What else is known of them. -/
  numbers : List Nat
  deriving Repr, Inhabited

/-- What stands to the right of some place in a text of marks. -/
structure Marks where
  /-- The number that begins there. -/
  value : Nat := 0
  /-- What the next digit to the left counts. -/
  weight : Nat := 1
  /-- The numbers of the same mark behind that one. -/
  numbers : List Nat := []
  /-- The marks behind this one. -/
  marks : List (Char × List Nat) := []

/-- The value of a digit to base thirty-six. -/
def digit36 (c : Char) : Nat := if c.isDigit then c.toNat - 48 else c.toNat - 87

/-- One more character to the left. -/
def Marks.before (c : Char) (m : Marks) : Marks :=
  if c.isUpper then { marks := (c, m.value :: m.numbers) :: m.marks }
  else if c = '.' then { numbers := m.value :: m.numbers, marks := m.marks }
  else if c.isAlphanum then
    { m with value := m.value + digit36 c * m.weight, weight := m.weight * 36 }
  else m

/-- The marks that a text writes. -/
def marksOf (text : String) : List (Char × List Nat) := (text.toList.foldr Marks.before {}).marks

/-- The runs of the marks, the first one beginning at the code point. -/
def runsFrom (first : Nat) : List (Char × List Nat) → List Run
  | [] => []
  | (kind, length :: numbers) :: rest => ⟨first, kind, numbers⟩ :: runsFrom (first + length) rest
  | (_, []) :: rest => runsFrom first rest

/-- The table of runs that a text writes. -/
def runsOf (text : String) : Array Run := (runsFrom 0 (marksOf text)).toArray

/-- How many runs begin at or before the code point, if at least `low` and fewer than
`low + 2 ^ bits` do. -/
def runRank (runs : Array Run) (v : Nat) : Nat → Nat → Nat
  | 0, low => low
  | bits + 1, low =>
    let high := low + Nat.pow 2 bits
    match runs[high - 1]? with
    | some run => runRank runs v bits (if run.first ≤ v then high else low)
    | none => runRank runs v bits low

/-- The run that holds a character. -/
def runAt (runs : Array Run) (c : Char) : Run :=
  (runs[runRank runs c.toNat (runs.size.log2 + 1) 0 - 1]?).getD default

/-- The characters that a run puts in place of one of its own: the one so many places further up
or down, every other one's neighbour, the same ones for all, or the character itself. -/
def Run.image (run : Run) (c : Char) : List Char :=
  match run.kind, run.numbers with
  | 'U', [n] => [Char.ofNat (c.toNat + n)]
  | 'D', [n] => [Char.ofNat (c.toNat - n)]
  | 'E', _ => [if (c.toNat - run.first) % 2 = 0 then Char.ofNat (c.toNat + 1) else c]
  | 'F', _ => [if (c.toNat - run.first) % 2 = 0 then Char.ofNat (c.toNat - 1) else c]
  | 'S', ns => ns.map Char.ofNat
  | _, _ => [c]

end Amqp.Text
