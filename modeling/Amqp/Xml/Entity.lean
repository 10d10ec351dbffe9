import Amqp.Xml.Source

/-!
# Entities

References in a text are replaced one kind after another, each in one pass over the whole text:
first the entities that the document declares, in the order of their declarations, then the
predefined ones, and the ampersand last. The value of an entity may refer to the reference it stands
for and to the text around it. Replacements are counted over the whole document, and a document that
asks for too many is refused.
-/

namespace Amqp.Xml

/-- A declared entity. -/
structure Entity where
  name : Source
  value : Source
  deriving DecidableEq, Repr

/-- What the replacements of a document add up to. -/
structure Expansion where
  /-- How many references were replaced. -/
  count : Nat := 0
  /-- By how much declared entities lengthened the text. -/
  growth : Int := 0
  deriving DecidableEq, Repr

/-- How many references may be replaced. -/
def expansionLimit : Nat := 1000

/-- By how much declared entities may lengthen the text. -/
def growthLimit : Int := 100000

/-- Why the replacements stop. -/
inductive ExpansionFault where
  | tooMany (count : Nat)
  | tooLong (growth : Int)
  deriving DecidableEq, Repr

/-- The wording of a limit that was passed. -/
def ExpansionFault.message : ExpansionFault → String
  | tooMany count =>
    "Entity expansion limit exceeded: " ++ toString count ++ " > " ++ toString expansionLimit
  | tooLong growth =>
    "Total expanded content size exceeded: " ++ toString growth ++ " > " ++ toString growthLimit

/-- The first of the patterns that the text begins with. -/
def prefixLength? (patterns : List (List UInt16)) (us : List UInt16) : Option Nat :=
  (patterns.find? (·.isPrefixOf us)).map List.length

/-- How often the patterns stand in the text, from left to right and without overlap. -/
def occurrences (patterns : List (List UInt16)) (us : List UInt16) : Nat :=
  match us with
  | [] => 0
  | u :: rest =>
    match prefixLength? patterns (u :: rest) with
    | some n => occurrences patterns (rest.drop (n - 1)) + 1
    | none => occurrences patterns rest
termination_by us.length
decreasing_by all_goals simp only [List.length_drop, List.length_cons]; omega

/-- What a value gives in the place of a reference, where `passed` is what stands before it, last
unit first, and `after` is what stands after it. A dollar sign in the value doubles to stand for
itself; with an ampersand behind it it is the reference, with a grave accent what stands before, and
with an apostrophe what stands after. -/
def fill (passed found after : List UInt16) : List UInt16 → List UInt16
  | u :: v :: rest =>
    if u = unitOf '$' then
      if v = unitOf '$' then u :: fill passed found after rest
      else if v = unitOf '&' then found ++ fill passed found after rest
      else if v = unitOf '\x60' then passed.reverse ++ fill passed found after rest
      else if v = unitOf '\'' then after ++ fill passed found after rest
      else u :: fill passed found after (v :: rest)
    else u :: fill passed found after (v :: rest)
  | us => us

/-- The text with every pattern replaced by what the value gives for it, where `passed` is what the
text stands behind, last unit first. -/
def replaceAll (patterns : List (List UInt16)) (value passed us : List UInt16) : List UInt16 :=
  match us with
  | [] => []
  | u :: rest =>
    match prefixLength? patterns (u :: rest) with
    | some n =>
      let found := u :: rest.take (n - 1)
      let after := rest.drop (n - 1)
      fill passed found after value ++ replaceAll patterns value (found.reverse ++ passed) after
    | none => u :: replaceAll patterns value (u :: passed) rest
termination_by us.length
decreasing_by all_goals simp only [List.length_drop, List.length_cons]; omega

/-- The units of a reference with that name. -/
def reference (name : List UInt16) : List UInt16 :=
  unitOf '&' :: (name ++ [unitOf ';'])

/-- The predefined entities that are counted: their names and what they stand for. -/
def predefined : List (List String × Char) :=
  [(["apos", "#39", "#x27"], '\''), (["gt", "#62", "#x3E"], '>'), (["lt", "#60", "#x3C"], '<'),
    (["quot", "#34", "#x22"], '"')]

/-- The names of the ampersand. -/
def ampersandNames : List String := ["amp", "#38", "#x26"]

/-- Replaces one declared entity. -/
def replaceDeclared (x : Expansion) (e : Entity) (us : List UInt16) :
    Except ExpansionFault (Expansion × List UInt16) :=
  let patterns := [reference e.name.toList]
  let n := occurrences patterns us
  let count := x.count + n
  if n = 0 then .ok (x, us)
  else if expansionLimit < count then .error (.tooMany count)
  else
    let replaced := replaceAll patterns e.value.toList [] us
    let growth := x.growth + replaced.length - us.length
    if growthLimit < growth then .error (.tooLong growth) else .ok (⟨count, growth⟩, replaced)

/-- Replaces one predefined entity. -/
def replacePredefined (x : Expansion) (names : List String) (c : Char) (us : List UInt16) :
    Except ExpansionFault (Expansion × List UInt16) :=
  let patterns := names.map fun n => reference (Text.units n)
  let n := occurrences patterns us
  let count := x.count + n
  if n = 0 then .ok (x, us)
  else if expansionLimit < count then .error (.tooMany count)
  else .ok ({ x with count }, replaceAll patterns [unitOf c] [] us)

/-- The text with its references replaced. -/
def resolve (entities : List Entity) (x : Expansion) (us : List UInt16) :
    Except ExpansionFault (Expansion × List UInt16) := do
  if !us.contains (unitOf '&') then return (x, us)
  let (x, us) ← entities.foldlM (fun (x, us) e => replaceDeclared x e us) (x, us)
  let (x, us) ← predefined.foldlM (fun (x, us) (names, c) => replacePredefined x names c us) (x, us)
  let ampersands := ampersandNames.map fun n => reference (Text.units n)
  return (x, replaceAll ampersands [unitOf '&'] [] us)

end Amqp.Xml
