import Amqp.Broker.State
import Amqp.Topic

/-!
# Routing

A published message is copied once to every queue that at least one binding of its exchange selects.
The default exchange selects the queue that the key names.
-/

namespace Amqp

/-- The text that is to be divided into words. -/
def wordsOf (subject : String) : Value → Except Value String
  | .text s => .ok s
  | v => .error (missingOperationFault subject v "split")

/-- Whether a binding of an exchange selects its queue for a key. Only texts have words. -/
def ExchangeType.selects (type : ExchangeType) (bound key : Value) : Except Value Bool :=
  match type with
  | .fanout => .ok true
  | .topic => do return Topic.isMatch (← wordsOf "pattern" bound) (← wordsOf "routingKey" key)
  | .headers => .ok false
  | .direct => .ok (bound.isEqual key)
  | .other _ => .ok (bound.isEqual key)

namespace Broker

/-- The queues that an exchange selects for a key, one entry a binding. -/
def Exchange.selected (e : Exchange) (key : Value) : Except Value (List Value) :=
  (e.bindings.filterM fun b => e.type.selects b.key key).map fun bs => bs.map (·.queue)

/-- The names in the order they first occur, each once. -/
def distinct : List Value → List Value
  | [] => []
  | name :: rest => name :: (distinct rest).filter (!·.sameKey name)

/-- The names of the queues that a message is copied to. -/
def targets (b : Broker) (exchangeName key : Value) : Except Fault (List Value) :=
  if exchangeName.isEqual (.text defaultExchange) then
    .ok (if (b.queue? key).isSome then [key] else [])
  else do
    let e ← b.exchange exchangeName
    ((e.selected key).map distinct).mapError .noText

/-- The broker with a copy of a message at the end of a queue, which is then to be served. -/
def append (b : Broker) (q : Queue) (c : Copy) : Broker :=
  let c := { c with serial := b.copied }
  { b.modifyQueue q.id (fun q => { q with messages := q.messages ++ [c] }) with
    copied := b.copied + 1 }.schedule q.id

/-- Copies a message to the queues of those names, one after the other, up to a name that no queue
has. -/
def copyTo (b : Broker) (c : Copy) : List Value → Broker × Except Fault Unit
  | [] => (b, .ok ())
  | name :: rest =>
    match b.queue name with
    | .ok q => (b.append q c).copyTo c rest
    | .error f => (b, .error f)

/-- Publishes a message. -/
def route (b : Broker) (c : Copy) : Broker × Except Fault Unit :=
  match b.targets c.exchange c.routingKey with
  | .ok names => b.copyTo c names
  | .error f => (b, .error f)

end Broker

end Amqp
