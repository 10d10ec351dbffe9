import Amqp.Url.Host

/-!
# URLs

`Url.parse?` reads a text as an absolute URL and `Url.href` writes one. A scheme decides how the
rest is read: special schemes need a host, have default ports and take a backslash for a slash; any
other scheme has a host only behind two slashes, and a path without a slash in front is kept as one
text.
-/

namespace Amqp

namespace Url

/-- The path of a URL. -/
inductive Path where
  /-- A text that is not divided. -/
  | rootless (text : List Char)
  /-- Segments, each behind a slash. -/
  | segments (parts : List (List Char))
  deriving DecidableEq, Repr

end Url

/-- An absolute URL. -/
structure Url where
  /-- The scheme in lower case. -/
  scheme : List Char
  username : List Char := []
  password : List Char := []
  host : Option Url.Host := none
  /-- The port, unless it is the scheme's own. -/
  port : Option Nat := none
  path : Url.Path := .segments []
  query : Option (List Char) := none
  fragment : Option (List Char) := none
  deriving DecidableEq, Repr

namespace Url

/-- The special schemes and their default ports. -/
def specialPorts : List (String × Option Nat) :=
  [("http", some 80), ("https", some 443), ("ws", some 80), ("wss", some 443), ("ftp", some 21),
    ("file", none)]

/-- The default port of a special scheme. -/
def specialPort? (scheme : List Char) : Option (Option Nat) :=
  (specialPorts.find? fun p => p.1.toList == scheme).map (·.2)

/-- Whether the scheme is special. -/
def isSpecial (scheme : List Char) : Bool := (specialPort? scheme).isSome

/-- Controls and spaces, which do not count at the ends. -/
def isEdge (c : Char) : Bool := c.toNat ≤ 0x20

/-- The characters that count: none of the edges, no tab and no line end. -/
def clean (cs : List Char) : List Char :=
  ((cs.dropWhile isEdge).reverse.dropWhile isEdge).reverse.filter
    fun c => c != '\t' && c != '\n' && c != '\x0d'

/-- Characters of a scheme. -/
def isSchemeChar (c : Char) : Bool := c.isAlphanum || c == '+' || c == '-' || c == '.'

/-- The scheme in lower case and what follows its colon. -/
def splitScheme? (cs : List Char) : Option (List Char × List Char) :=
  match cs.takeWhile isSchemeChar, cs.dropWhile isSchemeChar with
  | c :: scheme, ':' :: rest => if c.isAlpha then some (lower (c :: scheme), rest) else none
  | _, _ => none

/-- What stands before the first such character and, if there is one, what stands behind it. -/
def cutAt (c : Char) (cs : List Char) : List Char × Option (List Char) :=
  match cs.dropWhile (· != c) with
  | [] => (cs, none)
  | _ :: rest => (cs.takeWhile (· != c), some rest)

/-- The user name, the password and what follows the last at sign; without one the two are
absent. -/
def splitUserinfo (cs : List Char) : Option (List Char × List Char) × List Char :=
  match (Text.splitOn '@' cs).reverse with
  | last :: [] => (none, last)
  | last :: front =>
    let userinfo := "%40".toList.intercalate front.reverse
    let (username, password) := cutAt ':' userinfo
    (some (percentEncode userinfoSet username,
      percentEncode userinfoSet (password.getD [])), last)
  | [] => (none, [])

/-- The host and, behind the first colon outside brackets, the port. -/
def splitPort (inBrackets : Bool) : List Char → List Char × Option (List Char)
  | [] => ([], none)
  | c :: rest =>
    if c = ':' ∧ !inBrackets then ([], some rest)
    else
      let inBrackets := if c = '[' then true else if c = ']' then false else inBrackets
      let (host, port) := splitPort inBrackets rest
      (c :: host, port)

/-- The port that the digits write, without the scheme's own. Outside there is a failure. -/
def port? (scheme cs : List Char) : Option (Option Nat) :=
  if cs.isEmpty then some none
  else if cs.all Char.isDigit then
    match valueInBase? 10 cs with
    | some n =>
      if 65535 < n then none
      else if specialPort? scheme = some (some n) then some none
      else some (some n)
    | none => none
  else none

/-- The authority: user name, password, host and port. -/
def readAuthority? (scheme cs : List Char) : Option Url := do
  let (userinfo, rest) := splitUserinfo cs
  let (hostText, portText) := splitPort false rest
  if hostText.isEmpty ∧ (userinfo.isSome ∨ portText.isSome ∨ isSpecial scheme) then none
  let host ← host? (isSpecial scheme) hostText
  let port ← port? scheme (portText.getD [])
  let (username, password) := userinfo.getD ([], [])
  some { scheme, username, password, host := some host, port }

/-- A segment that stays where it is. -/
def isSingleDot (segment : List Char) : Bool := [".", "%2e"].any (·.toList == lower segment)

/-- A segment that goes back. -/
def isDoubleDot (segment : List Char) : Bool :=
  ["..", ".%2e", "%2e.", "%2e%2e"].any (·.toList == lower segment)

/-- A letter with a colon or a bar. -/
def isDriveLetter : List Char → Bool
  | [c, d] => c.isAlpha && (d == ':' || d == '|')
  | _ => false

/-- The path without its last segment, except that a file's drive stays. -/
def shorten (isFile : Bool) (parts : List (List Char)) : List (List Char) :=
  match isFile, parts with
  | true, [part] => if isDriveLetter part then [part] else []
  | _, parts => parts.dropLast

/-- Adds a segment that is no dots; a file's first segment may be a drive. -/
def addSegment (isFile : Bool) (parts : List (List Char)) (segment : List Char) :
    List (List Char) :=
  match isFile && parts.isEmpty && isDriveLetter segment, segment with
  | true, c :: _ => [[c, ':']]
  | _, segment => parts ++ [segment]

/-- Goes through encoded segments. Dots at the end leave an empty segment behind; only where a
scheme is not special, and there is nothing to go back from, do they leave nothing. -/
def resolveSegments (special isFile : Bool) (parts : List (List Char)) :
    List (List Char) → List (List Char)
  | [] => parts
  | [segment] =>
    if isDoubleDot segment then
      if special || !parts.isEmpty then shorten isFile parts ++ [[]] else parts
    else if isSingleDot segment then parts ++ [[]]
    else addSegment isFile parts segment
  | segment :: rest =>
    if isDoubleDot segment then resolveSegments special isFile (shorten isFile parts) rest
    else if isSingleDot segment then resolveSegments special isFile parts rest
    else resolveSegments special isFile (addSegment isFile parts segment) rest

/-- The path behind its first slash. -/
def readSegments (scheme cs : List Char) : Path :=
  .segments (resolveSegments (isSpecial scheme) (scheme == "file".toList) []
    ((Text.splitOn '/' cs).map (percentEncode pathSet)))

/-- The path behind an authority, with its first slash if there is one. -/
def readPath (scheme cs : List Char) : Path :=
  match cs with
  | [] => if isSpecial scheme then .segments [[]] else .segments []
  | '/' :: rest => readSegments scheme rest
  | cs => readSegments scheme cs

/-- The host and path of a file. -/
def readFile? (scheme cs : List Char) : Option Url :=
  match cs with
  | '/' :: '/' :: rest => do
    let hostText := rest.takeWhile (· != '/')
    if isDriveLetter hostText then
      some { scheme, host := some (.plain []), path := readSegments scheme rest }
    else
      let host ← if hostText.isEmpty then some (.plain []) else host? true hostText
      let host := if host = .domain "localhost".toList then .plain [] else host
      some { scheme, host := some host, path := readPath scheme (rest.dropWhile (· != '/')) }
  | cs => some { scheme, host := some (.plain []), path := readPath scheme cs }

/-- Everything between the scheme and the query. -/
def readHierarchy? (scheme cs : List Char) : Option Url :=
  if isSpecial scheme then
    let cs := cs.map fun c => if c = '\\' then '/' else c
    if scheme = "file".toList then readFile? scheme cs
    else do
      let rest := cs.dropWhile (· == '/')
      let u ← readAuthority? scheme (rest.takeWhile (· != '/'))
      some { u with path := readPath scheme (rest.dropWhile (· != '/')) }
  else
    match cs with
    | '/' :: '/' :: rest => do
      let u ← readAuthority? scheme (rest.takeWhile (· != '/'))
      some { u with path := readPath scheme (rest.dropWhile (· != '/')) }
    | '/' :: rest => some { scheme, path := readSegments scheme rest }
    | cs => some { scheme, path := .rootless (percentEncode controlSet cs) }

/-- The absolute URL that a text writes. -/
def parse? (text : String) : Option Url := do
  let (scheme, rest) ← splitScheme? (clean text.toList)
  let (rest, fragment) := cutAt '#' rest
  let (rest, query) := cutAt '?' rest
  let u ← readHierarchy? scheme rest
  let querySet := if isSpecial scheme then specialQuerySet else querySet
  some { u with
    query := query.map (percentEncode querySet)
    fragment := fragment.map (percentEncode fragmentSet) }

/-- The user name and password in front of a host. -/
def userinfoChars (u : Url) : List Char :=
  if u.username.isEmpty ∧ u.password.isEmpty then []
  else if u.password.isEmpty then u.username ++ ['@']
  else u.username ++ ':' :: u.password ++ ['@']

/-- The path as it is written. -/
def Path.chars : Path → List Char
  | rootless text => text
  | segments parts => parts.flatMap ('/' :: ·)

/-- What stands between the scheme and the path. A path that begins with two slashes and has no host
in front is marked, so that it is not read as one. -/
def authorityChars (u : Url) : List Char :=
  match u.host with
  | some host =>
    '/' :: '/' :: userinfoChars u ++ host.chars ++
      (match u.port with
        | some n => ':' :: decimalText n
        | none => [])
  | none =>
    match u.path with
    | .segments ([] :: _ :: _) => ['/', '.']
    | _ => []

/-- A part behind its mark, if it is there. -/
def markedChars (mark : Char) : Option (List Char) → List Char
  | some cs => mark :: cs
  | none => []

/-- The characters of a URL as it is written. -/
def chars (u : Url) : List Char :=
  u.scheme ++ ':' :: authorityChars u ++ u.path.chars ++ markedChars '?' u.query ++
    markedChars '#' u.fragment

/-- A URL as it is written. -/
def href (u : Url) : String := String.ofList u.chars

/-- The query pairs of a URL. -/
def pairs (u : Url) : List Pair := pairsOf (u.query.getD [])

/-- A path that is one text, without the spaces at its end; any other path as it is. -/
def Path.dropSpaces : Path → Path
  | rootless text => rootless (text.reverse.dropWhile (· == ' ')).reverse
  | path => path

/-- The URL with one more query pair; the others are written anew. Spaces at the end of a path that
is one text stay only in front of a fragment. -/
def addPair (u : Url) (p : Pair) : Url :=
  { u with
    query := some (queryOf (u.pairs ++ [p]))
    path := if u.fragment.isSome then u.path else u.path.dropSpaces }

end Url

end Amqp
