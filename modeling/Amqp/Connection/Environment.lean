import Amqp.Connection.Options
import Amqp.Number.Literal

/-!
# Options from the environment

Three variables hold the connection options. The address is required and has to name one of two
schemes; the two numbers may be left out or blank. Every variable that cannot be used is reported,
with each of its problems. The variables are checked with the validation library zod: which checks
there are, their order and the messages of the address are given to it, and what a check of a number
asks for and says is its own, as it is documented.
-/

namespace Amqp

/-- The variables that are read, in the order they are reported. -/
inductive Variable where
  | uri
  | heartbeat
  | timeout
  deriving DecidableEq, Repr

/-- The name of a variable. -/
def Variable.name : Variable → String
  | uri => "RMQ_URI"
  | heartbeat => "RMQ_HEARTBEAT"
  | timeout => "RMQ_CONNECTION_TIMEOUT_MS"

/-- What is wrong with a variable. -/
inductive VariableProblem where
  | missing
  | wrongScheme
  | notNumber
  | notInteger
  | negative
  | notPositive
  deriving DecidableEq, Repr

/-- A variable and what is wrong with it. -/
structure VariableIssue where
  subject : Variable
  problem : VariableProblem
  deriving DecidableEq, Repr

/-- The wording of an issue: the variable, and the message of the check that failed. The messages of
the address are given with its checks; those of a number are zod's own, for the type of a number and
its checks `int`, `nonnegative` and `positive`. -/
def VariableIssue.message (i : VariableIssue) : String :=
  i.subject.name ++ ": " ++
    match i.problem with
    | .missing => i.subject.name ++ " is required"
    | .wrongScheme => i.subject.name ++ " must start with amqp:// or amqps://"
    | .notNumber => "Expected number, received nan"
    | .notInteger => "Expected integer, received float"
    | .negative => "Number must be greater than or equal to 0"
    | .notPositive => "Number must be greater than 0"

/-- What a refused environment shows. -/
def environmentReport (issues : List VariableIssue) : Report :=
  let texts := issues.map VariableIssue.message
  .config ("Invalid connection configuration: " ++ String.intercalate "; " texts)
    (.list (texts.map .text))

/-- The variables that are set, with their values. -/
abbrev Environment := List (String × String)

/-- The value of a variable, if it is set. -/
def Environment.get? (env : Environment) (v : Variable) : Option String :=
  (env.find? (·.1 == v.name)).map (·.2)

/-- Whether an address names one of the two schemes. -/
def hasBrokerScheme (uri : String) : Bool :=
  "amqp://".toList.isPrefixOf uri.toList || "amqps://".toList.isPrefixOf uri.toList

/-- The issues of the address. -/
def uriIssues : Option String → List VariableIssue
  | none => [⟨.uri, .missing⟩]
  | some uri => if hasBrokerScheme uri then [] else [⟨.uri, .wrongScheme⟩]

/-- The number of a variable, or the default for one that is missing or blank. -/
def numberOr (default : Nat) : Option String → Number
  | none => .ofNat default
  | some s => if Text.isBlankText s then .ofNat default else .ofText s

/-- The issues of a number. The checks are zod's: what is no number at all fails by its type and has
no other issues, and of a number it reports each check that fails, in their order. An infinite
number is no integer. Which bound is checked, and under which name it is reported, is given. -/
def numberIssues (subject : Variable) (range : VariableProblem) (inRange : Number → Bool)
    (n : Number) : List VariableIssue :=
  if n = .nan then [⟨subject, .notNumber⟩]
  else
    (if n.isInteger then [] else [⟨subject, .notInteger⟩]) ++
      (if inRange n then [] else [⟨subject, range⟩])

/-- The interval that an environment asks for. -/
def Environment.heartbeat (env : Environment) : Number :=
  numberOr ConnectionOptions.defaultHeartbeat (env.get? .heartbeat)

/-- The time limit that an environment asks for. -/
def Environment.timeout (env : Environment) : Number :=
  numberOr ConnectionOptions.defaultTimeout (env.get? .timeout)

/-- All issues of an environment. -/
def Environment.issues (env : Environment) : List VariableIssue :=
  uriIssues (env.get? .uri) ++
    numberIssues .heartbeat .negative (fun n => !n.lt (.ofNat 0)) env.heartbeat ++
    numberIssues .timeout .notPositive (Number.lt (.ofNat 0)) env.timeout

/-- The options that an environment asks for, or all its issues. -/
def Environment.load (env : Environment) : Except (List VariableIssue) ConnectionOptions :=
  match env.issues with
  | [] => .ok ⟨(env.get? .uri).getD "", env.heartbeat, env.timeout⟩
  | issues => .error issues

end Amqp
