import Amqp.Text.Split
import Amqp.Text.Units
import Amqp.Value

/-!
# Values shown to a reader

How a value is shown inside a message: texts in quotes, the parts of lists and tables between
brackets, and everything on one line as long as it is short and holds few levels. What lies too deep
is shown by its kind alone, and long lists of short parts are set in columns.
-/

namespace Amqp.Value.Inspection

/-- How long a line may be. -/
def lineWidth : Nat := 80

/-- How many levels may share a line. -/
def sharedLevels : Nat := 3

/-- How many levels below the outermost one are shown. -/
def shownLevels : Nat := 2

/-- How many parts of a list are shown. -/
def shownParts : Nat := 100

/-- How many bytes are shown. -/
def shownBytes : Nat := 50

/-- How many units of a text are shown. -/
def shownUnits : Nat := 10000

/-- Units in the width of a text. -/
def width (s : String) : Nat := Text.unitCount s

/-- Blanks in front of a line. -/
def blanks (n : Nat) : String := String.ofList (List.replicate n ' ')

/-- A count of things that are left out. -/
def leftOut (n : Nat) (thing : String) : String :=
  "... " ++ toString n ++ " more " ++ thing ++ (if n = 1 then "" else "s")

/-- A digit to base sixteen. -/
def hexDigit (n : Nat) : Char := (Nat.toDigits 16 n).headD '0'

/-- A digit to base sixteen as a capital. -/
def hexCapital (n : Nat) : Char := (hexDigit n).toUpper

/-- A character inside quotes of that kind. -/
def quoteChar (mark c : Char) : List Char :=
  if c = mark ∨ c = '\\' then ['\\', c]
  else if c = '\x08' then ['\\', 'b']
  else if c = '\t' then ['\\', 't']
  else if c = '\n' then ['\\', 'n']
  else if c = '\x0c' then ['\\', 'f']
  else if c = '\x0d' then ['\\', 'r']
  else if c.toNat < 0x20 ∨ (0x7f ≤ c.toNat ∧ c.toNat < 0xa0) then
    ['\\', 'x', hexCapital (c.toNat / 16), hexCapital (c.toNat % 16)]
  else [c]

/-- Whether a text holds the start of a placeholder. -/
def hasPlaceholder : List Char → Bool
  | '$' :: '\x7b' :: _ => true
  | _ :: rest => hasPlaceholder rest
  | [] => false

/-- The quotes for a text: single ones, unless it holds some and others are free. -/
def quoteMark (cs : List Char) : Char :=
  if !cs.contains '\'' then '\''
  else if !cs.contains '"' then '"'
  else if !cs.contains '\x60' && !hasPlaceholder cs then '\x60'
  else '\''

/-- A text in quotes. -/
def quote (cs : List Char) : String :=
  let mark := quoteMark cs
  String.ofList (mark :: cs.flatMap (quoteChar mark) ++ [mark])

/-- The lines of a text, each with its end. -/
def linesOf (cs : List Char) : List (List Char) :=
  match Text.splitOn '\n' cs with
  | [] => []
  | parts =>
    (parts.dropLast.map (· ++ ['\n'])) ++ (parts.getLast?.toList.filter (!·.isEmpty))

/-- A text that is shown behind so many blanks. -/
def showText (indent : Nat) (s : String) : String :=
  let rest := width s - shownUnits
  let s := if rest = 0 then s else Text.takeUnits shownUnits s
  let shown :=
    if 16 < width s ∧ lineWidth < width s + indent + 4 then
      (" +\n" ++ blanks (indent + 2)).intercalate ((linesOf s.toList).map quote)
    else quote s.toList
  if rest = 0 then shown else shown ++ leftOut rest "character"

/-- The bytes of a payload. -/
def showBytes (bs : List UInt8) : String :=
  let shown := (bs.take shownBytes).map fun b =>
    String.ofList [hexDigit (b.toNat / 16), hexDigit (b.toNat % 16)]
  let rest := bs.length - shownBytes
  "<Buffer " ++ " ".intercalate shown ++
    (if rest = 0 then "" else " " ++ leftOut rest "byte") ++ ">"

/-- Whether a name stands without quotes. -/
def isPlainName (s : String) : Bool :=
  match s.toList with
  | [] => false
  | c :: rest => (c.isAlpha || c == '_') && rest.all fun c => c.isAlphanum || c == '_'

/-- The name of a field. -/
def showName (s : String) : String :=
  if s = "__proto__" then "['__proto__']" else if isPlainName s then s else quote s.toList

/-- How many columns the parts of a list are set in, given their widths and the width of one
column. -/
def columnCount (indent count total column : Nat) : Nat :=
  let bias := (Float.ofNat column - Float.ofNat total / Float.ofNat count).sqrt
  let biased := max (Float.ofNat column - bias) 1
  let square := ((2.5 * biased * Float.ofNat count).sqrt / biased + 0.5).floor.toUInt64.toNat
  min (min square ((lineWidth - indent) / column)) (min (sharedLevels * 4) 15)

/-- The parts in rows of so many. -/
def rowsOf (columns : Nat) : Nat → List String → List (List String)
  | 0, _ => []
  | _, [] => []
  | bound + 1, parts => parts.take columns :: rowsOf columns bound (parts.drop columns)

/-- The text with blanks up to the width, in front or behind. -/
def pad (inFront : Bool) (n : Nat) (s : String) : String :=
  if inFront then blanks (n - width s) ++ s else s ++ blanks (n - width s)

/-- One row of columns of those widths; the last part is filled up only in front. -/
def showRow (inFront : Bool) : List Nat → List String → String
  | w :: _, [part] => if inFront then pad true (w - 2) part else part
  | w :: ws, part :: parts => pad inFront w (part ++ ", ") ++ showRow inFront ws parts
  | _, _ => ""

/-- The parts of a list in columns, if they fit; what says how many are left out stays alone. -/
def inColumns (indent : Nat) (numeric : Bool) (parts more : List String) : List String :=
  let widths := parts.map width
  let greatest := widths.foldl max 0
  let column := greatest + 2
  let total := widths.foldl (· + ·) (2 * parts.length)
  if column * 3 + indent < lineWidth ∧ (5 * column < total ∨ greatest ≤ 6) then
    let columns := columnCount indent (parts.length + more.length) total column
    if columns ≤ 1 then parts ++ more
    else
      let rows := rowsOf columns parts.length parts
      let columnWidths := (List.range columns).map fun i =>
        (rows.filterMap (·[i]?)).foldl (fun w part => max w (width part)) 0 + 2
      rows.map (showRow numeric columnWidths) ++ more
  else parts ++ more

/-- Whether a value is a number of any size. -/
def isNumeric : Value → Bool
  | .number _ => true
  | .bigint _ => true
  | _ => false

/-- Parts between brackets, on one line if they are short and no text in them has several. -/
def between (left right : String) (indent : Nat) (mayShare : Bool) (parts : List String) :
    String :=
  let joined := ", ".intercalate parts
  let total := (parts.map width).foldl (· + ·) (2 * parts.length + indent + width left + 10)
  if mayShare ∧ 3 * parts.length + indent + width left + 10 ≤ lineWidth ∧ total ≤ lineWidth ∧
      !joined.toList.contains '\n' then
    left ++ " " ++ joined ++ " " ++ right
  else
    let lineBreak := "\n" ++ blanks indent
    left ++ lineBreak ++ "  " ++ ("," ++ lineBreak ++ "  ").intercalate parts ++ lineBreak ++ right

mutual

/-- A value at that level, behind so many blanks, and the level that was entered last. -/
def showAt (level indent : Nat) (entered : Nat) : Value → String × Nat
  | .undefined => ("undefined", entered)
  | .null => ("null", entered)
  | .bool b => (if b then "true" else "false", entered)
  | .number (.finite true 0 _) => ("-0", entered)
  | .number n => (n.text, entered)
  | .bigint n => (toString n ++ "n", entered)
  | .text s => (showText indent s, entered)
  | .bytes bs => (showBytes bs, entered)
  | .error name message _ => ("[" ++ Value.errorText name message ++ "]", entered)
  | .list [] => ("[]", entered)
  | .list (x :: xs) =>
    if shownLevels < level then ("[Array]", entered)
    else
      let (parts, entered) := showParts (level + 1) (indent + 2) (level + 1) (x :: xs)
      let shown := parts.take shownParts
      let rest := parts.length - shownParts
      let more := if rest = 0 then [] else [leftOut rest "item"]
      let all := shown ++ more
      let grouped :=
        if 6 < all.length then inColumns indent ((x :: xs).all isNumeric) shown more else all
      (between "[" "]" indent
        (entered - (level + 1) < sharedLevels && grouped.length == all.length) grouped, entered)
  | .table [] => ("\x7b\x7d", entered)
  | .table (f :: fs) =>
    if shownLevels < level then ("[Object]", entered)
    else
      let (parts, entered) := showFields (level + 1) (indent + 2) (level + 1) (f :: fs)
      (between "\x7b" "\x7d" indent (entered - (level + 1) < sharedLevels) parts, entered)

/-- The parts of a list. -/
def showParts (level indent entered : Nat) : List Value → List String × Nat
  | [] => ([], entered)
  | x :: xs =>
    let (part, entered) := showAt level indent entered x
    let (parts, entered) := showParts level indent entered xs
    (part :: parts, entered)

/-- The fields of a table. -/
def showFields (level indent entered : Nat) : List (String × Value) → List String × Nat
  | [] => ([], entered)
  | (name, v) :: fs =>
    let (part, entered) := showAt level indent entered v
    let (parts, entered) := showFields level indent entered fs
    ((showName name ++ ": " ++ part) :: parts, entered)

end

end Amqp.Value.Inspection

namespace Amqp

/-- A value as it is shown inside a message. -/
def Value.inspect (v : Value) : String := (Inspection.showAt 0 0 0 v).1

/-- What is thrown when nobody hears of an error: the error itself, or one that shows what came in
its place. -/
def unheardFault : Value → Value
  | .error name message fields => .error name message fields
  | v =>
    .error "Error" ("Unhandled error. (" ++ v.inspect ++ ")")
      [("code", .text "ERR_UNHANDLED_ERROR")]

end Amqp
