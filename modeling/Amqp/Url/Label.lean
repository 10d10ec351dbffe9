import Amqp.Text.Composed

/-!
# Labels of domains

A label with characters beyond ASCII has to be readable as one word: it begins with no mark, joiners
stand only where they show, and text in both directions has one that is clear.
-/

namespace Amqp.Url

/-- The marks, in `M`, which do not begin a label. -/
def markRuns : Array Text.Run := Text.runsOf "
VlcM35V7mM8V7aM19V1M1V1M2V1M2V1M9V1sMbV1cMlVgM1V2tM8V1M6V2M2V1M4VzM1VuMtV2hMbV1mM9V9M1VoM4V1M9V1M3
V1M7V15M5V1mM8V16M1mV1iM3V1MiV1MfV2M2VtM4V1jM1V1MgV9M9V2M4VoM7V1jMwVkM2V3M1VbM4V1jM1V1MiViM4VkMb
V1jM1V1MxV3M4VsM1V1nMiV7MfVqM5V1jM1V1MqVaM4VrM3V1kM1V1MvV5M4VdMhV1jM2V1MgV9M1VaM4VrM4V1xMsVcM2V1p
M1V2MbV8M8V2qM1V2M9VbM8V20M2VrM1V1M1V1M1V4M2V1dMkV1M2V5M1dV8M1V2sMkVnM4V4M3V1M3V2M7V3M4VdMcV1M1Va
M4VjjM3VqaMdVjM3VtMeViMeV1iMuV9M3V4lM2VyM1V3aMwV5zM7V1jM17V1cM2dV1bMhV12M9VcM3VuMdV1kMmV14MnV45M3
V1MlV4M1V6M1V2M3V5iM1tVjzM1gV2crM4V3wM1V2oMwVfeM6V2xM4Vn9uM4V1MaVwM2V28M2V7kM1V3M1V4M1VnM5V4M4V28
M2V1eMqViMiVdM1V12M8VpMoVxM4V1bMeV10M1V1vMnV3M1V8M4V17M3V1eM1V1M3V2M2V5M2V1M1V15M5V5McV6aM8V1M4
Vfn2M44VhaM11VqgM3nV2oM1V45MaV1a9MfV14M8V4lM6VftMcVajM2V28M3V1yMbV1dM4V3eM3V1hMfV15M1V2M2VaM4V19Mb
V7MeV1cM3V10MfVfM2V18M1VcM3V1cMeV8M4V1M2V2kMcV6M1V2M1rV2nMhVgM5V1iM2V1MiV7M6V5M4eV1hMiVnM1V29MkV6j
MiVrM10V1cMhV2yMdV2tMjV70MfV6tMfV1M1V1M2V3xMgV3MsV1MaV14M7V1M4V8M9V1MbV1aMgVb9MhV2aM32V1dMlV1M9V1m
MeV9nM4V9M2V1M1V1cMfV459M1V6M33tV7owM5V1nM7Vt4M1V1M1uV29MsVf4tM2V3mpM28VetM5V3MmV2M7VuM4V44M3V1iz
M1jV4M1eV8M1VeM1VmMv9V74M74V1cM7VafMiV18M4Ve4M4VrkM2aVyM7Vl705"

/-- How letters join their neighbours: on both sides in `D`, to the right in `R`, to the left
in `L`. -/
def joiningRuns : Array Text.Run := Text.runsOf "
U17kD1U1R4D1R1D1R1D5R4DdU1D7R1D2UzD2U1R3U5DfRiD12R1D2R9D1R1D1R1D2R2U1R1UoR2UaD3U2D1UgR1U1D3R5D4R1
D9R1D1R1D1R1D2R1UtR1DbR3DfR2D4R1D1R2D3R2D6U22DxU2dR1D5R2D1R1DaR1D1R3U7D1U1D4U1R1D1RqU3D1U2D5RaU8Da
R3U1R1D2R2D6R1DfU30eD1UoD2oU7DyU1D6UscwD1eL1Ujf1D5R1U1R1U1R2U2L1R5D4L1D5R1D3R1U2R1U6D4R1U40D1R1D1
R3D3R1D2R1D1R2D1R8UgR4D2U9dL1DxR1D1UekD3R1DhUcD3R1UrD4R2DcU1aD1U1D2R3U1D1R2D2R1D2U1D1R2D1U4R1D1Ll
U16wyDyUl70c"

/-- The directions: leftward letters in `R`, their digits in `A`, other digits in `E`, what has no
direction in `O` and marks in `N`; all else is rightward. -/
def directionRuns : Array Text.Run := Text.runsOf "
O9L5OeL5OfEaO13LqO2sLoO1LchO2L7OeL2OsL1OhN35L4O2L3jO2L3vN8L73O7N19R1N1R1N2R1N2R1N9R1iO2R1O2R1O1R1
O2NbR1cNlAaO1A2R3N1R2tN8O1N6R2N2O1N4R2EaRnN1RuNtR2hNbR1mN9R2O4R3N1RoN4R1N9R1N3R1N7R15N5R1mN8R16N1l
L1jN1L1N1L4N8L4N1L3NfL2N2LtN1L1mN1L4N6L6N1LkN4LcO2L7O1L2N5L1lN2L3NrLkN2L3N1LbN2L1lN1L4N8L4N3LiN4Lb
O8L1N8L1mN1L2N1L1N6L6NaLbN4LsN1L1pN1LcN3LzOdN1L3N1L1jN1L1N3L5NiLaN4LiO7L2N1L1mN1LfN9LdN4LqN2L1lN2
L4N5L7N1LkN4LrN1L20N5L3N6L2hN1L2NbO1L7N8L2qN1L2N9LbN8L20N2LrN1L1N1L1N1O4L1fNeL1N5L1N2L5N1dL8N1L2u
N4L1N6L1N2L2N2LpN2L4N3LgN4LdN1L2N2L6N1LfN1LjjN3L1cOgL2oO1LiiO5L36N3LtN2LuNeLiNeL1jN7L8N1L2NbL7O1L1
N3LgOwL39N2LyN1L3aN3L4N2L9N1L6N7O6L48OyLnN2L2N3L1kN1L1N9L1N1L2N8L6NdL1cN2cL1cN1L1N5L1N1L5N1L14N9Lc
N2LwN4L2N2L1N3L1kN1L1N2L3N1L1N3L1mN8L2N5L45N3L1NdL1N7L4N1L6N1L3N2L5iN1tLejO5gN1gO22L1oObwL1xOqL1
OlyL1O9fL74OmoL51O7L3N4L6O7L3jN1L2oNwOedL3OpL9N4L2O1L6O4L2O4L2gN4L3O1L2iO1L5gO1cL5hsO1sLh3kO1sL8t
O3L2nN4O1NaO3LtN2L28N2LeOzL2tO1L3dN1L3N1L4N1LpN2L1O4N4L8O8L1gOcL1wNaLiNiLdN1L12N8LpNbL1aN3L1cN1L2
N4L2N2L13N1L1vN6L2N2L2NbL3N1L8N1L1bN1L1fN1L1N3L2N2L5N2L1N1L16N2L8NbL2xO2eL11N1L2N1L4N3Lfn2N44Rb0
O6aN11O1aRb1L75O1L1qO25L3O1sL19N3nL2oN1EvL3aNaLw0R7zO1R69NfR14N8R4lN6R26O7RdgNcA9cR17N2R28N3R1yNb
R1dN4R3eL1N1L1iNfLbOkLaN1L2N2LaN3L1dN4L2N2L7NeL1cN3L10N5L1N9L1pN1LcN2L1gN9LaN4L2N1L2nN3L2N1L1N2L6
N1L2N1rL2nN1L3NdLgN2L1lN2L3N1L11N4aL1kN8L2N3L1N1LnN1L2cN6L1N1L4N2L1N2L6mN6L4N2L1N2LrN10L1fN8L2N1L1
N2LvOwL17N1L1N1L2N6L1N1L2tN3L2N4L1N9L73N9L1N2L74N2L1N1L4N1L40N8L4N1LwN6L2N2L14N6L2N4L8N9L1N6L2N3
L1aNdL1N2LbaNeL2cNnL1N7L1N2L1N23L1dNlL1N9L1sN3L2N1L1N1L9nN2LbN2L1gN8L2N1L1N1L42O16L401N1L6N33tL7ow
N5L1nN7Lt4N1L1rN4L27O1L1NcLf59N2L3mpN28LevN3LhN8L2N7LuN4L1nO2hN3O3fL1sO2oL1b4N1jL4N1eL8N1LeN1LmNv9
L74N74L1cN7LafNiL18N4LfOcxLsN4LlsR5sN2aRyN7R145OgwLtO3L1pO1lL3eO2owLl2io"

/-- The combining class of the marks that take away a vowel. -/
def vowelKillerClass : Nat := 9

/-- Which joiners there are. -/
def isJoiner (c : Char) : Bool := c == '\u200c' || c == '\u200d'

/-- How a letter joins its neighbours. -/
def joiningOf (c : Char) : Char := (Text.runAt joiningRuns c).kind

/-- Whether the first joiner of a label has its place there: behind a mark that takes away a vowel;
and one that keeps letters apart may also stand somewhere between two that would join. Without a
joiner there is nothing to say. -/
def joinersFit? (label : List Char) : Option Bool :=
  match label.takeWhile (!isJoiner ·), label.dropWhile (!isJoiner ·) with
  | _, [] => none
  | front, joiner :: rest =>
    if (front.getLast?.map Text.combiningClass) == some vowelKillerClass then some true
    else if joiner = '\u200d' then some false
    else
      some (front.any (fun c => joiningOf c == 'L' || joiningOf c == 'D') &&
        rest.any (fun c => joiningOf c == 'R' || joiningOf c == 'D'))

/-- The direction of a character. -/
def directionOf (c : Char) : Char := (Text.runAt directionRuns c).kind

/-- Whether the directions of a label go together. Only leftward text has rules: it begins with no
rightward letter, holds none, has digits of one sort, and ends in a letter or a digit, marks
aside. -/
def directionsFit (label : List Char) : Bool :=
  let directions := label.map directionOf
  if directions.any (fun d => d == 'R' || d == 'A') then
    let body := (directions.reverse.dropWhile (· == 'N')).reverse
    body.all (· != 'L') && !(body.contains 'A' && body.contains 'E') &&
      (body.getLast?.map fun d => d == 'R' || d == 'A' || d == 'E').getD false
  else true

/-- What an encoded label begins with. -/
def encodedMark : List Char := "xn--".toList

/-- Whether a label of mapped characters can stand in a domain. A joiner in its place settles it. -/
def isLabel (label : List Char) : Bool :=
  match label with
  | [] => false
  | c :: _ =>
    !encodedMark.isPrefixOf label && !label.contains '.' &&
      (Text.runAt markRuns c).kind != 'M' &&
      (joinersFit? label).getD (directionsFit label)

end Amqp.Url
