import Amqp.Text.Upper
import Amqp.Xml.Entity

/-!
# Document types

A document type may declare entities, which the texts of the document then refer to. Declarations
of elements and notations are checked for their form and otherwise ignored; external and parameter
entities are refused.
-/

namespace Amqp.Xml

/-- Why a document type is refused. -/
inductive DoctypeFault where
  | notDoctype
  | invalid
  | unclosed
  | invalidEntityName (name : String)
  | externalEntity
  | parameterEntity
  | expectedQuote (found : String)
  | unterminated (what : String)
  | entityTooLong (name : String) (size : Nat)
  | invalidElementName (name : String)
  | unterminatedContent
  | invalidElement (found : String)
  | expectedIdentifier (found : String)
  | missingIdentifier
  deriving DecidableEq, Repr

/-- How many units the value of an entity may have. -/
def entitySizeLimit : Nat := 10000

/-- The wording of a fault in a document type. -/
def DoctypeFault.message : DoctypeFault → String
  | notDoctype => "Invalid Tag instead of DOCTYPE"
  | invalid => "Invalid DOCTYPE"
  | unclosed => "Unclosed DOCTYPE"
  | invalidEntityName name => "Invalid entity name " ++ name
  | externalEntity => "External entities are not supported"
  | parameterEntity => "Parameter entities are not supported"
  | expectedQuote found => "Expected quoted string, found \"" ++ found ++ "\""
  | unterminated what => "Unterminated " ++ what ++ " value"
  | entityTooLong name size =>
    "Entity \"" ++ name ++ "\" size (" ++ toString size ++ ") exceeds maximum allowed size (" ++
      toString entitySizeLimit ++ ")"
  | invalidElementName name => "Invalid element name: \"" ++ name ++ "\""
  | unterminatedContent => "Unterminated content model"
  | invalidElement found => "Invalid Element Expression, found \"" ++ found ++ "\""
  | expectedIdentifier found => "Expected SYSTEM or PUBLIC, found \"" ++ found ++ "\""
  | missingIdentifier => "Missing mandatory system identifier for SYSTEM notation"

/-- The first index that is no blank. -/
def skipBlanks (s : Source) (i : Nat) : Nat := scan (!s.isBlank ·) s.size i

/-- The character at the index as a message shows it. -/
def Source.shown (s : Source) (i : Nat) : String :=
  if i < s.size then (s.part i (i + 1)).text else "undefined"

/-- The quoted value at the index, and the index behind it. -/
def quoted (s : Source) (i : Nat) (what : String) : Except DoctypeFault (Source × Nat) :=
  if s.isOneOf i ['"', '\''] then
    let e := scan (fun j => s[j]? == s[i]?) s.size (i + 1)
    if e < s.size then .ok (s.part (i + 1) e, e + 1) else .error (.unterminated what)
  else .error (.expectedQuote (s.shown i))

/-- The six characters at the index in upper case. -/
def sixUpper (s : Source) (i : Nat) : String := Text.upper (s.part i (i + 6)).text

/-- An entity's declaration from its name on: the entity, and the last index of its value. -/
def readEntity (s : Source) (i : Nat) : Except DoctypeFault (Entity × Nat) := do
  let start := skipBlanks s i
  let stop := scan (fun j => s.isBlank j || s.isOneOf j ['"', '\'']) s.size start
  let name := s.part start stop
  if !name.isName then throw (.invalidEntityName name.text)
  let i := skipBlanks s stop
  if sixUpper s i = "SYSTEM" then throw .externalEntity
  if s.is i '%' then throw .parameterEntity
  let (value, i) ← quoted s i "entity"
  if entitySizeLimit < value.size then throw (.entityTooLong name.text value.size)
  return (⟨name, value⟩, i - 1)

/-- An element's declaration from its name on: its last index. -/
def readElement (s : Source) (i : Nat) : Except DoctypeFault Nat := do
  let start := skipBlanks s i
  let stop := scan s.isBlank s.size start
  let name := s.part start stop
  if !name.isName then throw (.invalidElementName name.text)
  let i := skipBlanks s stop
  if s.hasAt i "EMPTY".toList then return i + 4
  else if s.hasAt i "ANY".toList then return i + 2
  else if s.is i '(' then
    let e := scan (s.is · ')') s.size (i + 1)
    if e < s.size then return e else throw .unterminatedContent
  else throw (.invalidElement (s.shown i))

/-- A notation's declaration from its name on: its last index. -/
def readNotation (s : Source) (i : Nat) : Except DoctypeFault Nat := do
  let start := skipBlanks s i
  let stop := scan s.isBlank s.size start
  let name := s.part start stop
  if !name.isName then throw (.invalidEntityName name.text)
  let i := skipBlanks s stop
  let kind := sixUpper s i
  if kind = "PUBLIC" then
    let (_, i) ← quoted s (skipBlanks s (i + 6)) "publicIdentifier"
    let j := skipBlanks s i
    if s.isOneOf j ['"', '\''] then
      let (_, k) ← quoted s j "systemIdentifier"
      return k - 1
    else return j - 1
  else if kind = "SYSTEM" then
    let (value, j) ← quoted s (skipBlanks s (i + 6)) "systemIdentifier"
    if value.isEmpty then throw .missingIdentifier
    return j - 1
  else throw (.expectedIdentifier kind)

/-- A name under which no entity is kept. -/
def unkeptName : String := "__proto__"

/-- Puts a declared entity in the place of an earlier one with its name, or at the end. -/
def declare (e : Entity) : List Entity → List Entity
  | [] => [e]
  | d :: rest => if d.name = e.name then e :: rest else d :: declare e rest

/-- What is known in the middle of a document type. -/
structure DoctypeProgress where
  /-- How many angle brackets are open. -/
  depth : Nat := 1
  /-- The internal subset has begun. -/
  hasBody : Bool := false
  /-- A comment is open. -/
  inComment : Bool := false
  entities : List Entity := []

/-- The declaration whose bracket stands at the index: the progress after it and its last index. -/
def readDeclaration (s : Source) (p : DoctypeProgress) (i : Nat) :
    Except DoctypeFault (DoctypeProgress × Nat) :=
  let p' := { p with depth := p.depth + 1 }
  if p.hasBody && s.hasAt (i + 1) "!ENTITY".toList then do
    let (e, j) ← readEntity s (i + 8)
    if e.value.contains (unitOf '&') || e.name.text == unkeptName then return (p', j)
    else return ({ p' with entities := declare e p.entities }, j)
  else if p.hasBody && s.hasAt (i + 1) "!ELEMENT".toList then do
    return (p', ← readElement s (i + 9))
  else if p.hasBody && s.hasAt (i + 1) "!ATTLIST".toList then return (p', i + 8)
  else if p.hasBody && s.hasAt (i + 1) "!NOTATION".toList then do
    return (p', ← readNotation s (i + 10))
  else if s.hasAt (i + 1) "!--".toList then return ({ p' with inComment := true }, i)
  else throw .invalid

/-- Reads on from the index to the bracket that closes the document type. -/
def readSubset (s : Source) : Nat → DoctypeProgress → Nat →
    Except DoctypeFault (List Entity × Nat)
  | 0, _, _ => throw .unclosed
  | fuel + 1, p, i =>
    if s.size ≤ i then throw .unclosed
    else if s.is i '<' && !p.inComment then do
      let (p, j) ← readDeclaration s p i
      readSubset s fuel p (j + 1)
    else if s.is i '>' then
      if p.inComment then
        if s.is (i - 1) '-' && s.is (i - 2) '-' then
          if p.depth = 1 then return (p.entities, i)
          else readSubset s fuel { p with inComment := false, depth := p.depth - 1 } (i + 1)
        else readSubset s fuel p (i + 1)
      else if p.depth = 1 then return (p.entities, i)
      else readSubset s fuel { p with depth := p.depth - 1 } (i + 1)
    else if s.is i '[' then readSubset s fuel { p with hasBody := true } (i + 1)
    else readSubset s fuel p (i + 1)

/-- The document type whose bracket stands at the index: its entities and its last index. -/
def readDoctype (s : Source) (i : Nat) : Except DoctypeFault (List Entity × Nat) :=
  if s.hasAt (i + 3) "OCTYPE".toList then readSubset s (s.size + 1) {} (i + 9)
  else throw .notDoctype

end Amqp.Xml
