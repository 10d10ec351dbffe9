import Amqp.Xml.Source

/-!
# Well-formed documents

`wellFormed` walks over a document once and refuses it at the first fault: tags that do not nest, a
second root, text outside the root, attributes without value or with a name twice, references that
are cut short. Contents of comments, of processing instructions and of the document type are
skipped, not checked.
-/

namespace Amqp.Xml

/-- Why an attribute list is refused. -/
inductive AttributeFault where
  | noSpace (name : String)
  | noValue (name : String)
  | boolean (name : String)
  | invalidName (name : String)
  | repeated (name : String)
  /-- An attribute's name hides the look-up of the names seen so far, and another one follows. -/
  | hidden
  deriving DecidableEq, Repr

/-- Why a document is not well formed. -/
inductive Fault where
  | lateDeclaration
  | blankName
  | invalidTag (name : String)
  | openQuote (tag : String)
  | inAttributes (fault : AttributeFault)
  | closingTagUnfinished (tag : String)
  | closingTagWithAttributes (tag : String)
  | closingTagUnopened (tag : String)
  | closingTagMismatch (opened : String) (position : Position) (tag : String)
  | secondRoot
  | strayAmpersand
  | extraText
  | strayCharacter (c : String)
  | noStartTag
  | unclosedTag (tag : String)
  | unclosedTags (tags : List String)
  deriving DecidableEq, Repr

/-- The wording of a fault in an attribute list. -/
def AttributeFault.message : AttributeFault → String
  | noSpace name => "Attribute '" ++ name ++ "' has no space in starting."
  | noValue name => "Attribute '" ++ name ++ "' is without value."
  | boolean name => "boolean attribute '" ++ name ++ "' is not allowed."
  | invalidName name => "Attribute '" ++ name ++ "' is an invalid name."
  | repeated name => "Attribute '" ++ name ++ "' is repeated."
  | hidden => "attrNames.hasOwnProperty is not a function"

/-- The wording of a fault. -/
def Fault.message : Fault → String
  | lateDeclaration => "XML declaration allowed only at the start of the document."
  | blankName => "Invalid space after '<'."
  | invalidTag name => "Tag '" ++ name ++ "' is an invalid name."
  | openQuote tag => "Attributes for '" ++ tag ++ "' have open quote."
  | inAttributes fault => fault.message
  | closingTagUnfinished tag => "Closing tag '" ++ tag ++ "' doesn't have proper closing."
  | closingTagWithAttributes tag =>
    "Closing tag '" ++ tag ++ "' can't have attributes or invalid starting."
  | closingTagUnopened tag => "Closing tag '" ++ tag ++ "' has not been opened."
  | closingTagMismatch opened position tag =>
    "Expected closing tag '" ++ opened ++ "' (opened in line " ++ toString position.line ++
      ", col " ++ toString position.column ++ ") instead of closing tag '" ++ tag ++ "'."
  | secondRoot => "Multiple possible root nodes found."
  | strayAmpersand => "char '&' is not expected."
  | extraText => "Extra text at the end"
  | strayCharacter c => "char '" ++ c ++ "' is not expected."
  | noStartTag => "Start tag expected."
  | unclosedTag tag => "Unclosed tag '" ++ tag ++ "'."
  | unclosedTags tags =>
    "Invalid '[" ++ String.intercalate "," (tags.map fun t => "    \"" ++ t ++ "\"") ++ "]' found."

/-- A fault and the line and column it is reported at. -/
structure Rejection where
  fault : Fault
  line : Nat
  /-- Absent where the fault has no place of its own. -/
  column : Option Nat
  deriving DecidableEq, Repr

/-- The wording of a rejection. -/
def Rejection.message (r : Rejection) : String :=
  r.fault.message ++ " (line " ++ toString r.line ++ ", column " ++
    (match r.column with
      | some c => toString c
      | none => "undefined") ++ ")"

/-- The fault at the index. -/
def Source.reject (s : Source) (fault : Fault) (i : Nat) : Rejection :=
  let p := s.position i
  ⟨fault, p.line, some p.column⟩

/-- The index at the end of a processing instruction whose content begins at `start`. -/
def instructionEnd (s : Source) (start : Nat) : Except Rejection Nat :=
  let late (j : Nat) : Bool :=
    5 < j && j == start + 3 && s.hasAt start ['x', 'm', 'l'] && s.isOneOf j ['?', ' ']
  let j := scan (fun j => late j || s.hasAt j ['?', '>']) s.size start
  if j < s.size then
    if late j then .error (s.reject .lateDeclaration j) else .ok (j + 1)
  else .ok j

/-- The index of the bracket that brings the count of open angle brackets to zero. -/
def bracketsEnd (s : Source) (open_ : Nat) (i : Nat) : Nat :=
  if _h : i < s.size then
    if s.is i '<' then bracketsEnd s (open_ + 1) (i + 1)
    else if s.is i '>' then if open_ = 1 then i else bracketsEnd s (open_ - 1) (i + 1)
    else bracketsEnd s open_ (i + 1)
  else i
termination_by s.size - i

/-- The last index of the comment, document type or character data whose exclamation mark stands at
`p`; `p` itself if it is none of them. -/
def markupEnd (s : Source) (p : Nat) : Nat :=
  if p + 5 < s.size ∧ s.hasAt (p + 1) ['-', '-'] then
    let j := scan (s.hasAt · ['-', '-', '>']) s.size (p + 3)
    if j < s.size then j + 2 else j
  else if p + 8 < s.size ∧ s.hasAt (p + 1) "DOCTYPE".toList then bracketsEnd s 1 (p + 8)
  else if p + 9 < s.size ∧ s.hasAt (p + 1) "[CDATA[".toList then
    let j := scan (s.hasAt · [']', ']', '>']) s.size (p + 8)
    if j < s.size then j + 2 else j
  else p

/-- Where an attribute list ends: at the bracket outside quotes, or at the end of the document. -/
structure AttributeEnd where
  index : Nat
  /-- A quote is still open. -/
  quoted : Bool
  deriving DecidableEq, Repr

/-- The end of the attribute list from the index on, inside the given quote if there is one. -/
def attributeEnd (s : Source) (quote : Option UInt16) (i : Nat) : AttributeEnd :=
  if h : i < s.size then
    let u := s[i]
    match quote with
    | some q => attributeEnd s (if u = q then none else quote) (i + 1)
    | none =>
      if u = unitOf '"' ∨ u = unitOf '\'' then attributeEnd s (some u) (i + 1)
      else if u = unitOf '>' then ⟨i, false⟩
      else attributeEnd s none (i + 1)
  else ⟨i, quote.isSome⟩
termination_by s.size - i

/-- One entry of an attribute list, as indices into the list. -/
structure AttributeMatch where
  /-- Where the name begins. -/
  nameStart : Nat
  /-- Where the name ends. -/
  nameEnd : Nat
  /-- Blanks stand in front of the name. -/
  spaced : Bool
  /-- An equality sign follows the name. -/
  hasEquals : Bool
  /-- Where the quoted value begins and ends, without its quotes. -/
  value : Option (Nat × Nat)
  /-- Where the entry ends. -/
  stop : Nat
  deriving DecidableEq, Repr

/-- The quoted value after blanks at the index, with the index behind it. -/
def quotedValue? (a : Source) (i : Nat) : Option ((Nat × Nat) × Nat) :=
  let q := scan (!a.isBlank ·) a.size i
  match a[q]? with
  | some u =>
    if u = unitOf '"' ∨ u = unitOf '\'' then
      let e := scan (fun j => a[j]? == some u) a.size (q + 1)
      if e < a.size then some ((q + 1, e), e + 1) else none
    else none
  | none => none

/-- The name from the index on: everything up to a blank or an equality sign. -/
def nameStop (a : Source) (i : Nat) : Nat := scan (fun j => a.isBlank j || a.is j '=') a.size i

/-- The next entry of an attribute list from the index on. A value needs no equality sign here. -/
def nextAttribute? (a : Source) (i : Nat) : Option AttributeMatch :=
  if _h : i < a.size then
    let start := scan (!a.isBlank ·) a.size i
    if start < a.size then
      if a.is start '=' then nextAttribute? a (start + 1)
      else
        let stop := nameStop a start
        let sign := scan (!a.isBlank ·) a.size stop
        let hasEquals := a.is sign '='
        let valueFrom := if hasEquals then sign + 1 else stop
        match quotedValue? a valueFrom with
        | some (value, stop') => some ⟨start, stop, i < start, hasEquals, some value, stop'⟩
        | none => some ⟨start, stop, i < start, hasEquals, none, valueFrom⟩
    else none
  else none
termination_by a.size - i
decreasing_by
  have := le_scan (!a.isBlank ·) a.size i
  omega

/-- The name that hides the look-up of names once it is there itself. -/
def lookupName : String := "hasOwnProperty"

/-- A name that is never remembered. -/
def unseenName : String := "__proto__"

/-- Why a name cannot come next, given the names seen so far. -/
def nameFault? (seen : List String) (name : String) : Option AttributeFault :=
  if seen.contains lookupName then some .hidden
  else if seen.contains name then some (.repeated name)
  else none

/-- The names seen, with one more. -/
def remember (seen : List String) (name : String) : List String :=
  if name = unseenName then seen else name :: seen

/-- The first fault of an attribute list and its index there, given the names seen so far. -/
def attributeFault? (a : Source) : Nat → List String → Nat → Option (AttributeFault × Nat)
  | 0, _, _ => none
  | fuel + 1, seen, i =>
    match nextAttribute? a i with
    | none => none
    | some m =>
      let part := a.part m.nameStart m.nameEnd
      let name := part.text
      if !m.spaced then some (.noSpace name, m.nameStart)
      else if m.hasEquals ∧ m.value.isNone then some (.noValue name, m.nameStart)
      else if !m.hasEquals then some (.boolean name, m.nameStart)
      else if !part.isName then some (.invalidName name, m.nameStart)
      else
        match nameFault? seen name with
        | some fault => some (fault, m.nameStart)
        | none => attributeFault? a fuel (remember seen name) m.stop

/-- Refuses the attribute list from `start` to `stop` if it has a fault. -/
def checkAttributes (s : Source) (start stop : Nat) : Except Rejection Unit :=
  let a := s.part start stop
  match attributeFault? a (a.size + 1) [] 0 with
  | some (fault, i) => .error (s.reject (.inAttributes fault) (start + i))
  | none => .ok ()

/-- A character of an entity's name. -/
def isWordUnit (u : UInt16) : Bool :=
  (0x30 ≤ u && u ≤ 0x39) || (0x41 ≤ u && u ≤ 0x5a) || (0x61 ≤ u && u ≤ 0x7a) || u == 0x5f

/-- A decimal digit. -/
def isDigitUnit (u : UInt16) : Bool := 0x30 ≤ u && u ≤ 0x39

/-- A hexadecimal digit. -/
def isHexUnit (u : UInt16) : Bool :=
  isDigitUnit u || (0x41 ≤ u && u ≤ 0x46) || (0x61 ≤ u && u ≤ 0x66)

/-- Whether a unit of the class stands at the index. -/
def Source.test (s : Source) (i : Nat) (p : UInt16 → Bool) : Bool := (s[i]?.map p).getD false

/-- The last index of the reference whose ampersand stands at `i`. A name that the end of the
document cuts short passes. -/
def referenceEnd? (s : Source) (i : Nat) : Option Nat :=
  if s.is (i + 1) ';' then none
  else if s.is (i + 1) '#' then
    let hex := s.is (i + 2) 'x'
    let start := if hex then i + 3 else i + 2
    let j := scan (fun j => !s.test j (if hex then isHexUnit else isDigitUnit)) s.size start
    if s.is j ';' then some j else none
  else
    let j := scan (fun j => !(s.test j isWordUnit && j < i + 21)) s.size (i + 1)
    if s.is j ';' ∨ s.size ≤ j then some j else none

/-- A tag that is open, and where it began. -/
structure OpenTag where
  name : Source
  start : Nat
  deriving DecidableEq, Repr

/-- What is known in the middle of a document. -/
structure Progress where
  /-- The open tags, innermost first. -/
  tags : List OpenTag := []
  /-- The root has been closed. -/
  rooted : Bool := false
  /-- A tag has been seen. -/
  found : Bool := false
  deriving DecidableEq, Repr

/-- The index of the next tag after the text from `i` on, or the end of the document. -/
def textEnd (s : Source) (rooted : Bool) : Nat → Nat → Except Rejection Nat
  | 0, i => .ok i
  | fuel + 1, i =>
    if s.size ≤ i then .ok i
    else if s.is i '<' then
      if s.is (i + 1) '!' then textEnd s rooted fuel (markupEnd s (i + 1) + 1)
      else if s.is (i + 1) '?' then do
        let j ← instructionEnd s (i + 1)
        textEnd s rooted fuel (j + 1)
      else .ok i
    else if s.is i '&' then
      match referenceEnd? s i with
      | some j => textEnd s rooted fuel (j + 1)
      | none => .error (s.reject .strayAmpersand i)
    else if rooted && !s.isSpace i then .error (s.reject .extraText i)
    else textEnd s rooted fuel (i + 1)

/-- What a closing tag does to the open ones. -/
def closeTag (s : Source) (p : Progress) (name : Source) (start : Nat) :
    Except Rejection Progress :=
  match p.tags with
  | [] => .error (s.reject (.closingTagUnopened name.text) start)
  | opened :: rest =>
    if opened.name = name then .ok { p with tags := rest, rooted := p.rooted || rest.isEmpty }
    else .error (s.reject
      (.closingTagMismatch opened.name.text (s.position opened.start) name.text) start)

/-- Reads the tag whose bracket stands at `start`, and gives the index where it ends. -/
def readTag (s : Source) (p : Progress) (start : Nat) : Except Rejection (Progress × Nat) := do
  let closing := s.is (start + 1) '/'
  let nameStart := if closing then start + 2 else start + 1
  let stop := scan (fun j => s.is j '>' || s.isSpace j) s.size nameStart
  let trimmed := (s.part nameStart stop).trim
  let slashed := trimmed.endsWith '/'
  let name : Source := if slashed then trimmed.pop else trimmed
  let i := if slashed then stop - 1 else stop
  if !name.isName then
    .error (s.reject (if name.trim.isEmpty then .blankName else .invalidTag name.text) i)
  else
    let e := attributeEnd s none i
    let j := e.index
    if e.quoted then .error (s.reject (.openQuote name.text) i)
    else if i < j ∧ s.is (j - 1) '/' then
      checkAttributes s i (j - 1)
      return ({ p with found := true }, j)
    else if closing then
      if s.size ≤ j then .error (s.reject (.closingTagUnfinished name.text) j)
      else if !(s.part i j).trim.isEmpty then
        .error (s.reject (.closingTagWithAttributes name.text) start)
      else return (← closeTag s p name start, j)
    else
      checkAttributes s i j
      if p.rooted then .error (s.reject .secondRoot j)
      else return ({ p with tags := ⟨name, start⟩ :: p.tags, found := true }, j)

/-- What the end of the document says about the tags. -/
def finish (s : Source) (p : Progress) : Except Rejection Unit :=
  if !p.found then .error ⟨.noStartTag, 1, none⟩
  else
    match p.tags with
    | [] => .ok ()
    | [tag] => .error (s.reject (.unclosedTag tag.name.text) tag.start)
    | tags => .error ⟨.unclosedTags (tags.reverse.map (·.name.text)), 1, some 1⟩

/-- Walks over the document from the index on. -/
def walk (s : Source) : Nat → Progress → Nat → Except Rejection Unit
  | 0, p, _ => finish s p
  | fuel + 1, p, i =>
    if s.size ≤ i then finish s p
    else if s.is i '<' then
      if s.is (i + 1) '?' then do
        let j ← instructionEnd s (i + 2)
        walk s fuel p (j + 1)
      else if s.is (i + 1) '!' then walk s fuel p (markupEnd s (i + 1) + 1)
      else do
        let (p, j) ← readTag s p i
        let k ← textEnd s p.rooted (s.size + 1) (j + 1)
        walk s fuel p k
    else if s.isSpace i then walk s fuel p (i + 1)
    else .error (s.reject (.strayCharacter (s.part i (i + 1)).text) i)

/-- Accepts a well-formed document; a leading byte order mark does not count. -/
def wellFormed (text : String) : Except Rejection Unit :=
  let s := Source.ofText text
  let s := if s[0]? = some 0xfeff then s.part 1 s.size else s
  walk s (s.size + 1) {} 0

end Amqp.Xml
