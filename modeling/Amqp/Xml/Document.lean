import Amqp.Xml.Doctype
import Amqp.Xml.WellFormed
import Amqp.Value

/-!
# Documents as values

A document is read into a tree of elements and texts, and the tree is turned into nested tables:
siblings with one name become a list, attributes become fields behind a mark, and the texts of an
element are joined. Tags are matched by count, not by name, for the names have been checked before.
-/

namespace Amqp.Xml

/-- A part of a document. -/
inductive Node where
  | text (content : String)
  | element (name : String) (attributes : List (String × String)) (children : List Node)
  deriving Repr, Inhabited

/-- Why a well-formed document is refused. -/
inductive DocumentFault where
  | expansion (fault : ExpansionFault)
  | doctype (fault : DoctypeFault)
  | closingTagUnclosed
  | instructionUnclosed
  | commentUnclosed
  | dataUnclosed
  | tooDeep
  | reservedName (name : String)
  /-- A tag that the end of the document cuts short. -/
  | unfinishedTag
  /-- Content after more closing tags than opening ones; the name says what was to be used. -/
  | outside (part : String)
  /-- The look-up of siblings is needed after a child's name has hidden it. -/
  | hiddenLookup
  deriving DecidableEq, Repr

/-- The wording of a fault. -/
def DocumentFault.message : DocumentFault → String
  | expansion fault => fault.message
  | doctype fault => fault.message
  | closingTagUnclosed => "Closing Tag is not closed."
  | instructionUnclosed => "Pi Tag is not closed."
  | commentUnclosed => "Comment is not closed."
  | dataUnclosed => "CDATA is not closed."
  | tooDeep => "Maximum nested tags exceeded"
  | reservedName name => "Invalid tag name: " ++ name
  | unfinishedTag => "Cannot read properties of undefined (reading 'tagName')"
  | outside part => "Cannot read properties of undefined (reading '" ++ part ++ "')"
  | hiddenLookup => "compressedObj." ++ lookupName ++ " is not a function"

/-- The name of the document itself. -/
def documentName : String := "!xml"

/-- An element whose closing tag is still to come. -/
structure Frame where
  name : String := documentName
  attributes : List (String × String) := []
  /-- The children so far, last one first. -/
  children : List Node := []
  deriving Inhabited

/-- The element of a frame. -/
def Frame.node (f : Frame) : Node := .element f.name f.attributes f.children.reverse

/-- The frame with one more child. -/
def Frame.add (f : Frame) (n : Node) : Frame := { f with children := n :: f.children }

/-- What is known in the middle of a document. -/
structure Reading where
  /-- The element whose content is being read; absent once the document itself has been closed. -/
  current : Option Frame := some {}
  /-- The elements around it, innermost first; the last one is the document. -/
  around : List Frame := []
  /-- The document once it has been closed. -/
  closed : Frame := {}
  /-- The text since the last tag. -/
  pending : List UInt16 := []
  entities : List Entity := []
  expansion : Expansion := {}

/-- Deepest nesting of open elements. -/
def depthLimit : Nat := 100

/-- The name under which an element is kept. -/
def keptName (name : String) : String := if name = "__proto__" then "#__proto__" else name

/-- The field that holds the texts of an element. -/
def textName : String := "#text"

/-- Replaces the references of a text. -/
def Reading.resolve (r : Reading) (us : List UInt16) :
    Except DocumentFault (Reading × List UInt16) :=
  match Xml.resolve r.entities r.expansion us with
  | .ok (x, us) => .ok ({ r with expansion := x }, us)
  | .error fault => .error (.expansion fault)

/-- Adds the pending text, trimmed and resolved, to the current element. -/
def Reading.flush (r : Reading) : Except DocumentFault Reading :=
  if r.pending.isEmpty then .ok r
  else
    match r.current with
    | none => .error (.outside "child")
    | some f => do
      let (r, us) ← r.resolve (Source.trim r.pending.toArray).toList
      let f := if us.isEmpty then f else f.add (.text (Text.ofUnits us))
      return { r with current := some f, pending := [] }

/-- Adds a child to the current element. -/
def Reading.add (r : Reading) (n : Node) : Except DocumentFault Reading :=
  match r.current with
  | none => .error (.outside "addChild")
  | some f => .ok { r with current := some (f.add n) }

/-- Closes the current element. -/
def Reading.close (r : Reading) : Reading :=
  match r.current, r.around with
  | some f, outer :: rest => { r with current := some (outer.add f.node), around := rest }
  | some f, [] => { r with current := none, closed := f }
  | none, _ => r

/-- The document at the end: all elements still open are closed. -/
def Reading.document (r : Reading) : List Node :=
  match r.current with
  | some f => (r.around.foldl (fun inner outer => outer.add inner.node) f).children.reverse
  | none => r.closed.children.reverse

/-- A tag's text from the index on, up to the closing characters outside quotes, with tabs as
spaces; and the index where the closing characters stand. -/
def tagText? (s : Source) (closing : List Char) (quote : Option UInt16) (read : List UInt16)
    (i : Nat) : Option (Source × Nat) :=
  if h : i < s.size then
    let u := s[i]
    match quote with
    | some q => tagText? s closing (if u = q then none else quote) (u :: read) (i + 1)
    | none =>
      if u = unitOf '"' ∨ u = unitOf '\'' then tagText? s closing (some u) (u :: read) (i + 1)
      else if s.hasAt i closing then some (read.reverse.toArray, i)
      else
        tagText? s closing none ((if u = unitOf '\t' then unitOf ' ' else u) :: read) (i + 1)
  else none
termination_by s.size - i

/-- The name and the rest of a tag's text. Without a blank in it the rest is the name. -/
def splitTag (t : Source) : Source × Source :=
  let e := scan t.isBlank t.size 0
  if e < t.size then (t.part 0 e, (t.part (e + 1) t.size).trimStart) else (t, t)

/-- The attributes with a value in a tag's text: names and values in order. -/
def attributesIn (a : Source) : Nat → Nat → List (Source × Source)
  | 0, _ => []
  | fuel + 1, i =>
    let start := scan (fun j => !(a.isBlank j || a.is j '=')) a.size i
    if start < a.size then
      let stop := nameStop a start
      let sign := skipBlanks a stop
      if a.is sign '=' then
        match quotedValue? a (sign + 1) with
        | some ((v, w), next) =>
          (a.part start stop, a.part v w) :: attributesIn a fuel next
        | none => attributesIn a fuel sign
      else attributesIn a fuel sign
    else []

/-- The mark in front of an attribute's name. -/
def attributeMark : String := "@_"

/-- The fields with the text put at the name: in its old place, or at the end. -/
def putText (name text : String) : List (String × String) → List (String × String)
  | [] => [(name, text)]
  | (k, t) :: rest => if k = name then (k, text) :: rest else (k, t) :: putText name text rest

/-- Resolves the attributes of a tag; a name that comes twice keeps its last value. -/
def Reading.attributes (r : Reading) (t : Source) :
    Except DocumentFault (Reading × List (String × String)) :=
  (attributesIn t (t.size + 1) 0).foldlM (fun (r, kept) (name, value) => do
    let (r, us) ← r.resolve value.trim.toList
    return (r, putText (attributeMark ++ name.text) (Text.ofUnits us) kept)) (r, [])

/-- The attributes of a tag, if it has a text besides its name. -/
def Reading.tagAttributes (r : Reading) (name rest : Source) :
    Except DocumentFault (Reading × List (String × String)) :=
  if name = rest then .ok (r, []) else r.attributes rest

/-- A processing instruction whose bracket stands at the index; and its last index. -/
def Reading.instruction (r : Reading) (s : Source) (i : Nat) :
    Except DocumentFault (Reading × Nat) :=
  match tagText? s ['?', '>'] none [] (i + 1) with
  | none => .error .instructionUnclosed
  | some (t, j) => do
    let (name, rest) := splitTag t
    let r ← r.flush
    if name.text = "?xml" then return (r, j + 1)
    else
      let (r, attributes) ← r.tagAttributes name rest
      let r ← r.add (.element (keptName name.text) attributes [.text ""])
      return (r, j + 1)

/-- The pending text before an opening tag is added, except in the document and where an element has
its name. -/
def Reading.flushBeforeTag (r : Reading) : Except DocumentFault Reading :=
  match r.current with
  | some f => if f.name = documentName then .ok r else r.flush
  | none => .ok r

/-- An opening tag whose bracket stands at the index; and its last index. -/
def Reading.open (r : Reading) (s : Source) (i : Nat) : Except DocumentFault (Reading × Nat) :=
  match tagText? s ['>'] none [] (i + 1) with
  | none => .error .unfinishedTag
  | some (t, j) => do
    let (name, rest) := splitTag t
    if name.text = textName then throw (.reservedName name.text)
    let r ← r.flushBeforeTag
    if rest.endsWith '/' then
      let (name, rest) : Source × Source :=
        if name.endsWith '/' then (name.pop, name.pop) else (name, rest.pop)
      let (r, attributes) ← r.tagAttributes name rest
      let r ← r.add (.element (keptName name.text) attributes [])
      return ({ r with pending := [] }, j)
    else if depthLimit < r.around.length then throw .tooDeep
    else
      let (r, attributes) ← r.tagAttributes name rest
      match r.current with
      | none => throw (.outside "addChild")
      | some f =>
        let inner : Frame := ⟨keptName name.text, attributes, []⟩
        return ({ r with current := some inner, around := f :: r.around, pending := [] }, j)

/-- Character data whose bracket stands at the index; and its last index. -/
def Reading.data (r : Reading) (s : Source) (i : Nat) : Except DocumentFault (Reading × Nat) := do
  let e := scan (s.hasAt · [']', ']', '>']) s.size i
  if s.size ≤ e then throw .dataUnclosed
  let r ← r.flush
  match r.current with
  | none => throw (.outside "tagname")
  | some f =>
    let content := s.part (min (i + 9) e) (max (i + 9) e)
    return ({ r with current := some (f.add (.text content.text)) }, e + 2)

/-- The tag whose bracket stands at the index; and its last index. -/
def Reading.tag (r : Reading) (s : Source) (i : Nat) : Except DocumentFault (Reading × Nat) :=
  if s.is (i + 1) '/' then do
    let e := scan (s.is · '>') s.size i
    if s.size ≤ e then throw .closingTagUnclosed
    let r ← if r.current.isSome then r.flush else pure r
    return ({ r.close with pending := [] }, e)
  else if s.is (i + 1) '?' then r.instruction s i
  else if s.hasAt (i + 1) ['!', '-', '-'] then
    let e := scan (s.hasAt · ['-', '-', '>']) s.size (i + 4)
    if e < s.size then .ok (r, e + 2) else .error .commentUnclosed
  else if s.hasAt (i + 1) ['!', 'D'] then
    match readDoctype s i with
    | .ok (entities, j) => .ok ({ r with entities }, j)
    | .error fault => .error (.doctype fault)
  else if s.hasAt (i + 1) ['!', '['] then r.data s i
  else r.open s i

/-- Reads the document on from the index. -/
def readFrom (s : Source) : Nat → Reading → Nat → Except DocumentFault Reading
  | 0, r, _ => .ok r
  | fuel + 1, r, i =>
    if s.size ≤ i then .ok r
    else if s.is i '<' then do
      let (r, j) ← r.tag s i
      readFrom s fuel r (j + 1)
    else
      let j := scan (s.is · '<') s.size i
      readFrom s fuel { r with pending := r.pending ++ (s.part i j).toList } j

/-- The document with every line end as one line feed. -/
def normalizeLines : List UInt16 → List UInt16
  | [] => []
  | [u] => [if u = unitOf '\r' then unitOf '\n' else u]
  | u :: v :: rest =>
    if u = unitOf '\r' then
      if v = unitOf '\n' then unitOf '\n' :: normalizeLines rest
      else unitOf '\n' :: normalizeLines (v :: rest)
    else u :: normalizeLines (v :: rest)

/-- The top-level parts of a document. -/
def readNodes (text : String) : Except DocumentFault (List Node) :=
  let s : Source := (normalizeLines (Text.units text)).toArray
  (readFrom s (s.size + 1) {} 0).map Reading.document

/-- The fields with one more value at the name; a second value makes a list. -/
def putSibling (name : String) (v : Value) : List (String × Value) → List (String × Value)
  | [] => [(name, v)]
  | (k, w) :: rest =>
    if k = name then
      match w with
      | .list ws => (k, .list (ws ++ [v])) :: rest
      | w => (k, .list [w, v]) :: rest
    else (k, w) :: putSibling name v rest

/-- The texts among the parts, joined. -/
def joinedText (nodes : List Node) : String :=
  nodes.foldl (fun t n => match n with
    | .text content => t ++ content
    | .element .. => t) ""

/-- An element's value from its fields and attributes. -/
def elementValue (attributes : List (String × String)) (fields : List (String × Value)) : Value :=
  match attributes, fields with
  | [], [] => .text ""
  | [], [(name, v)] => if name = textName then v else .table [(name, v)]
  | attributes, fields =>
    .table (attributes.foldl (fun fs (k, t) => Value.putField k (.text t) fs) fields)

/-- The fields with the joined text, unless it is empty. -/
def withText (text : String) (fields : List (String × Value)) : List (String × Value) :=
  if text = "" then fields else Value.putField textName (.text text) fields

/-- Names that every table has from the start. -/
def innateNames : List String :=
  ["constructor", "hasOwnProperty", "isPrototypeOf", "propertyIsEnumerable", "toLocaleString",
    "toString", "valueOf", "__defineGetter__", "__defineSetter__", "__lookupGetter__",
    "__lookupSetter__", "__proto__"]

/-- Whether a child of that name needs the look-up of siblings when a child has hidden it. -/
def isLookupHidden (kept : List (String × Value)) (name : String) : Bool :=
  kept.any (·.1 == lookupName) && (innateNames.contains name || kept.any (·.1 == name))

mutual

/-- The value of an element. -/
def Node.value : Node → Except DocumentFault Value
  | .text content => .ok (.text content)
  | .element _ attributes children =>
    (Node.fields [] children).map fun fields =>
      elementValue attributes (withText (joinedText children) fields)

/-- The fields of a list of parts, after those already there. -/
def Node.fields (kept : List (String × Value)) :
    List Node → Except DocumentFault (List (String × Value))
  | [] => .ok kept
  | .text _ :: rest => Node.fields kept rest
  | .element name attributes children :: rest =>
    match Node.value (.element name attributes children) with
    | .error fault => .error fault
    | .ok v =>
      if isLookupHidden kept name then .error .hiddenLookup
      else Node.fields (putSibling name v kept) rest

end

/-- The value of a document that is well formed. -/
def document (text : String) : Except DocumentFault Value := do
  let nodes ← readNodes text
  return .table (withText (joinedText nodes) (← Node.fields [] nodes))

/-- Why a text is no document that can be read. -/
inductive Failure where
  /-- The text is not well formed. -/
  | malformed (rejection : Rejection)
  /-- The text is well formed and asks for something that is not supported. -/
  | unsupported (fault : DocumentFault)
  deriving DecidableEq, Repr

/-- The wording of a failure. -/
def Failure.message : Failure → String
  | malformed rejection => rejection.message
  | unsupported fault => fault.message

/-- What is raised in the place of a failure that cannot be reported. -/
def Failure.thrown? : Failure → Option Value
  | malformed ⟨.inAttributes .hidden, _, _⟩ =>
    some (.error "TypeError" AttributeFault.hidden.message [])
  | _ => none

/-- The value of a text: it has to be well formed, and is then read. -/
def parse (text : String) : Except Failure Value :=
  match wellFormed text with
  | .error rejection => .error (.malformed rejection)
  | .ok () =>
    match document text with
    | .error fault => .error (.unsupported fault)
    | .ok v => .ok v

end Amqp.Xml
