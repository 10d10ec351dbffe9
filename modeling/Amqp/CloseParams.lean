import Amqp.Value

/-!
# Close parameters

A channel may be closed with a reply code and a reason. Loosely typed input is taken only if both
parts have the right type.
-/

namespace Amqp

/-- The reply code and the reason of a close. -/
structure CloseParams where
  code : Number
  reason : String
  deriving DecidableEq, Repr, Inhabited

namespace CloseParams

/-- The reply code of a normal close. -/
def successCode : Nat := 200

/-- The parameters of a pair of values: an integer and a text, or nothing. The checks are those of
the validation library zod, for which an infinite number is no integer. -/
def ofValues? : Value → Value → Option CloseParams
  | .number code, .text reason => if code.isInteger then some ⟨code, reason⟩ else none
  | _, _ => none

/-- The parameters as a table. -/
def toValue (p : CloseParams) : Value :=
  .table [("code", .number p.code), ("reason", .text p.reason)]

end CloseParams

end Amqp
