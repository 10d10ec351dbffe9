import Amqp.Error.Report

/-!
# Failed channel operations

Every operation of a channel fails with a kind of its own. The failure keeps the diagnostic text of
what went wrong beneath, the thrown value itself, and the reply code if the peer gave one; the code
says whether trying again may help.
-/

namespace Amqp

/-- Which operation failed. -/
inductive OperationKind where
  | channelCreation
  | channelClose
  | channelAbort
  | queueDeclaration
  | exchangeDeclaration
  | binding
  | publish
  | queueDeletion
  | exchangeDeletion
  | queuePurge
  | consume
  | consumerCancel
  | qos
  | acknowledgement
  deriving DecidableEq, Repr, Inhabited

/-- The name of a kind of failure. -/
def OperationKind.name : OperationKind → String
  | channelCreation => "ChannelCreationFailed"
  | channelClose => "ChannelCloseFailed"
  | channelAbort => "ChannelAbortFailed"
  | queueDeclaration => "QueueDeclarationFailed"
  | exchangeDeclaration => "ExchangeDeclarationFailed"
  | binding => "BindingFailed"
  | publish => "PublishFailed"
  | queueDeletion => "QueueDeletionFailed"
  | exchangeDeletion => "ExchangeDeletionFailed"
  | queuePurge => "QueuePurgeFailed"
  | consume => "ConsumeFailed"
  | consumerCancel => "ConsumerCancelFailed"
  | qos => "QosFailed"
  | acknowledgement => "AcknowledgementFailed"

/-- Reply codes of conditions that may clear by themselves. -/
def recoverableCodes : List Nat := [311, 313, 320, 405, 506]

/-- Reply codes of conditions that stay. -/
def nonRecoverableCodes : List Nat := [402, 403, 404, 406, 501, 502, 503, 504, 505, 530, 540, 541]

/-- Whether a reply code names a condition that may clear by itself. -/
def isRecoverableCode (code : Number) : Bool := recoverableCodes.any fun n => code == Number.ofNat n

/-- A failed channel operation. -/
structure OperationError where
  kind : OperationKind
  /-- What was attempted. -/
  summary : String
  /-- The diagnostic text of what went wrong beneath. -/
  detail : String := ""
  /-- The value that was thrown beneath. -/
  cause : Value := .undefined
  replyCode : Option Number := none
  deriving Repr, Inhabited

namespace OperationError

/-- What was attempted, and the detail if there is one. -/
def message (e : OperationError) : String :=
  if e.detail = "" then e.summary else e.summary ++ ": " ++ e.detail

/-- The failure that a thrown value causes. Describing a value without a text throws in turn. -/
def ofThrown (kind : OperationKind) (summary : String) (thrown : Value) :
    Except Value OperationError :=
  (describe thrown).map fun detail => ⟨kind, summary, detail, thrown, replyCodeOf thrown⟩

/-- Whether trying again may help: always without a reply code, else if the code is known so. -/
def recoverable (e : OperationError) : Bool :=
  match e.replyCode with
  | none => true
  | some code => isRecoverableCode code

/-- What the failure shows. -/
def report (e : OperationError) : Report where
  name := "ChannelOperationError"
  message := e.message
  fields :=
    [("kind", .text e.kind.name), ("detail", .text e.detail),
      ("replyCode", (e.replyCode.map Value.number).getD .null),
      ("recoverable", .bool e.recoverable), ("cause", e.cause.orNull)]

end OperationError

end Amqp
