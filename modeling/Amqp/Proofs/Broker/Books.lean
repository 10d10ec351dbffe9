import Amqp.Broker.Machine

/-!
# The books of a broker

What a broker does with its copies is written down event by event: the copies that publishes put on
queues, the copies that are handed to consumers, and the copies that leave the broker for good, each
with the reason. The books are read off the broker before the event; they are not part of it.
-/

namespace Amqp.Broker

/-- The copy as one that has been handed out. -/
def Copy.marked (c : Copy) : Copy := { c with redelivered := true }

/-- The copy as it was published. -/
def Copy.unmarked (c : Copy) : Copy := { c with redelivered := false }

@[simp] theorem Copy.marked_serial (c : Copy) : c.marked.serial = c.serial := rfl

@[simp] theorem Copy.marked_redelivered (c : Copy) : c.marked.redelivered = true := rfl

@[simp] theorem Copy.marked_unmarked (c : Copy) : c.marked.unmarked = c.unmarked := rfl

@[simp] theorem Copy.unmarked_serial (c : Copy) : c.unmarked.serial = c.serial := rfl

/-- Why a copy leaves the broker for good. -/
inductive Reason where
  | acknowledged
  /-- It was rejected and is not to be put back. -/
  | rejected
  /-- It was handed to a consumer that acknowledges nothing. -/
  | handedOver
  | purged
  /-- Its queue was deleted. -/
  | deleted
  /-- Its queue went with the last consumer. -/
  | autoDeleted
  /-- It was to be put back, but its queue is gone. -/
  | orphaned
  deriving DecidableEq, Repr

/-- A copy that has left the broker. -/
structure Retirement where
  copy : Copy
  reason : Reason
  deriving Repr

/-- A copy as it was when it was handed out, and the consumer that got it. -/
structure Handover where
  copy : Copy
  /-- The delivery tag. -/
  tag : Nat
  consumer : Consumer
  deriving Repr

/-- What a consumer hears with a handover. -/
def Handover.effect (h : Handover) : Effect :=
  .deliver h.consumer.channel h.consumer.number (h.copy.message h.tag h.consumer.tag)

/-- A copy that is handed to a consumer that acknowledges nothing leaves the broker. -/
def Handover.retirements (h : Handover) : List Retirement :=
  match h.consumer.mode with
  | .manual => []
  | .auto => [⟨h.copy.marked, .handedOver⟩]

/-- What has become of the copies. -/
@[ext] structure Books where
  /-- The copies as publishes put them on queues, in order. -/
  made : List Copy := []
  /-- The handovers, in order. -/
  handed : List Handover := []
  retired : List Retirement := []
  deriving Repr

namespace Books

/-- The books with later ones after them. -/
def append (s t : Books) : Books :=
  ⟨s.made ++ t.made, s.handed ++ t.handed, s.retired ++ t.retired⟩

instance : Append Books := ⟨append⟩

@[simp] theorem made_append (s t : Books) : (s ++ t).made = s.made ++ t.made := rfl

@[simp] theorem handed_append (s t : Books) : (s ++ t).handed = s.handed ++ t.handed := rfl

@[simp] theorem retired_append (s t : Books) : (s ++ t).retired = s.retired ++ t.retired := rfl

@[simp] theorem nil_append (s : Books) : ({} : Books) ++ s = s := rfl

@[simp] theorem append_nil (s : Books) : s ++ ({} : Books) = s := by ext1 <;> simp

theorem append_assoc (s t u : Books) : s ++ t ++ u = s ++ (t ++ u) := by ext1 <;> simp

/-- Copies leave the broker, all for one reason. -/
def retiring (reason : Reason) (copies : List Copy) : Books :=
  { retired := copies.map fun c => ⟨c, reason⟩ }

@[simp] theorem made_retiring (reason : Reason) (cs : List Copy) :
    (retiring reason cs).made = [] := rfl

@[simp] theorem handed_retiring (reason : Reason) (cs : List Copy) :
    (retiring reason cs).handed = [] := rfl

@[simp] theorem copies_retiring (reason : Reason) (cs : List Copy) :
    (retiring reason cs).retired.map (·.copy) = cs := by
  simp [retiring, Function.comp_def]

@[simp] theorem retiring_nil (reason : Reason) : retiring reason [] = {} := rfl

/-- Copies that leave one after the other leave all. -/
theorem retiring_append (reason : Reason) (cs ds : List Copy) :
    retiring reason (cs ++ ds) = retiring reason cs ++ retiring reason ds := by
  ext1 <;> simp [retiring]

/-- Copies are handed out. -/
def handing (handovers : List Handover) : Books :=
  { handed := handovers, retired := handovers.flatMap Handover.retirements }

/-- Copies that are handed out one after the other are handed out all. -/
theorem handing_cons (h : Handover) (hs : List Handover) :
    handing (h :: hs) = handing [h] ++ handing hs := by
  ext1 <;> simp [handing]

end Books

open Books (retiring handing)

variable (b : Broker)

/-! ## Queues that go and copies that are put back -/

/-- The copies of a queue that goes when the consumer of a registered one is taken off it. -/
def dropped (r : Registered) : List Copy :=
  match b.queue? r.queue with
  | none => []
  | some q =>
    let rest := q.consumers.filter fun s => !(s.tag.isEqual r.tag || s.number == r.number)
    if q.flags.autoDelete.isTruthy && rest.isEmpty then q.messages else []

/-- The copies of the queues that go when several consumers are taken off. -/
def droppedBy (b : Broker) : List Registered → List Copy
  | [] => []
  | r :: rest => b.dropped r ++ (b.removeConsumer r).droppedBy rest

/-- The copy, if there is no queue to put it back on. -/
def orphaned (u : Unacked) : List Copy :=
  if ((b.queue? u.queue).orElse fun _ => b.queueById? u.origin).isSome then [] else [u.copy.marked]

/-- The copies among several that find no queue. -/
def orphans (b : Broker) : List Unacked → List Copy
  | [] => []
  | u :: us => b.orphaned u ++ (b.giveBack u).orphans us

/-- A channel once it has ended. -/
def Channel.ended (c : Channel) : Channel :=
  { c with closed := true, consumers := [], unacked := [] }

/-- What becomes of copies when a channel ends. -/
def terminated (ch : Nat) : Books :=
  match b.openChannel ch with
  | .error _ => {}
  | .ok c =>
    retiring .autoDeleted (b.droppedBy c.consumers) ++
      retiring .orphaned (((c.consumers.foldl removeConsumer b).modifyChannel ch .ended).orphans
        (c.unacked.map (·.2)))

/-- What becomes of copies when several channels end, one after the other. -/
def disconnected (b : Broker) (error : Value) : List Nat → Books
  | [] => {}
  | ch :: rest => b.terminated ch ++ (b.terminate ch (some error)).1.disconnected error rest

/-! ## Primitives -/

/-- What becomes of copies when a channel is to end at its own request. -/
def endedBy (ch : Nat) (verb : String) (params : Option Value) : Books :=
  match callText verb params with
  | .error _ => {}
  | .ok text => (b.modifyChannel ch fun c => { c with calls := c.calls ++ [text] }).terminated ch

/-- The copies that a publish makes, one for each number that it uses up. -/
def published (exchangeName key properties body : Value) : List Copy :=
  (List.range' b.copied
    ((b.publish exchangeName key properties body).broker.copied - b.copied)).map fun serial =>
      ⟨serial, exchangeName, key, properties, bytesOf body, false⟩

/-- What becomes of the copies of a settlement. -/
def settled (ch : Nat) (tag : Tag) (multiple : Bool) (after : Broker → List Unacked → Books) :
    Books :=
  match b.settle ch tag multiple with
  | .error _ => {}
  | .ok (b, us) => after b us

/-- What becomes of copies when an open channel is asked for a primitive. -/
def performed (ch : Nat) (c : Channel) : Amqp.Channel.Primitive → Books
  | .close params => b.endedBy ch "close" params
  | .abort params => b.endedBy ch "abort" params
  | .basicPublish exchangeName key properties body =>
    { made := b.published exchangeName key properties body }
  | .queueDelete name =>
    match b.queue? name with
    | none => {}
    | some q => retiring .deleted q.messages
  | .queuePurge name =>
    match b.queue? name with
    | none => {}
    | some q => retiring .purged q.messages
  | .basicCancel tag =>
    match c.consumers.find? (·.tag.sameKey tag) with
    | none => {}
    | some r => retiring .autoDeleted (b.dropped r)
  | .basicAck tag multiple =>
    b.settled ch tag multiple.isTruthy fun _ us =>
      retiring .acknowledged (us.map (·.copy.marked))
  | .basicNack tag multiple requeue =>
    b.settled ch tag multiple.isTruthy fun b us =>
      if requeue.isTruthy then retiring .orphaned (b.orphans us)
      else retiring .rejected (us.map (·.copy.marked))
  | _ => {}

/-! ## Events -/

/-- The handover that is next at a queue. -/
def handover? (id : Nat) : Option Handover := do
  let q ← b.queueById? id
  let copy ← q.messages.head?
  let consumer ← q.consumers[b.turns % q.consumers.length]?
  let c ← b.channels[consumer.channel]?
  some ⟨copy, c.nextTag, consumer⟩

/-- The handovers at a queue, at most as many as the bound says. -/
def handovers (b : Broker) (id : Nat) : Nat → List Handover
  | 0 => []
  | bound + 1 =>
    match b.handOut? id, b.handover? id with
    | some (b, _), some h => h :: b.handovers id bound
    | _, _ => []

/-- The handovers when the next scheduled queue is served. -/
def served : List Handover :=
  match b.scheduled with
  | [] => []
  | id :: rest =>
    let b := { b with scheduled := rest }
    match b.queueById? id with
    | none => []
    | some q => b.handovers id q.messages.length

/-- What becomes of copies with an event. -/
def entries : Event → Books
  | .request ch _ p =>
    match b.openChannel ch with
    | .error _ => {}
    | .ok c => b.performed ch c p
  | .serve => handing b.served
  | .disconnect error => b.disconnected error (List.range b.channels.length)
  | _ => {}

/-- The broker after a handover of the first copy of a queue. -/
def handedTo (q : Queue) (h : Handover) : Broker :=
  ({ b with turns := b.turns + 1 }.modifyQueue q.id fun q =>
    { q with messages := q.messages.tail }).modifyChannel h.consumer.channel fun c =>
      { c with
        nextTag := c.nextTag + 1
        unacked := match h.consumer.mode with
          | .manual => c.unacked ++ [(c.nextTag, Unacked.mk q.name q.id h.copy)]
          | .auto => c.unacked }

/-- The channel of a consumer that gets a copy of the queue. -/
def Channel.taking (c : Channel) (q : Queue) (h : Handover) : Channel :=
  { c with
    nextTag := c.nextTag + 1
    unacked := match h.consumer.mode with
      | .manual => c.unacked ++ [(c.nextTag, Unacked.mk q.name q.id h.copy)]
      | .auto => c.unacked }

variable {b}

/-- Serving a queue once hands its first copy to one of its consumers. -/
theorem handOut?_eq_some {id : Nat} {b' : Broker} {e : Effect} (h : b.handOut? id = some (b', e)) :
    ∃ q copy rest s c, b.queueById? id = some q ∧ q.messages = copy :: rest ∧ s ∈ q.consumers ∧
      b.channels[s.channel]? = some c ∧ b.handover? id = some ⟨copy, c.nextTag, s⟩ ∧
      e = Handover.effect ⟨copy, c.nextTag, s⟩ ∧ b' = b.handedTo q ⟨copy, c.nextTag, s⟩ := by
  simp only [handOut?, Option.bind_eq_bind, Option.bind_eq_some_iff, Option.some.injEq,
    Prod.mk.injEq] at h
  obtain ⟨q, hq, copy, hcopy, s, hs, c, hc, hb, he⟩ := h
  obtain ⟨rest, hmessages⟩ := List.head?_eq_some_iff.mp hcopy
  obtain rfl : q.id = id := by simpa using List.find?_some hq
  refine ⟨q, copy, rest, s, c, hq, hmessages, List.mem_of_getElem? hs, hc, ?_, he.symm, hb.symm⟩
  simp [handover?, hq, hcopy, hs, hc]

/-- The effects of handing out copies are those of the handovers. -/
theorem effects_handOut (id bound : Nat) :
    (b.handOut id bound).2 = (b.handovers id bound).map Handover.effect := by
  induction bound generalizing b with
  | zero => rfl
  | succ bound ih =>
    cases h : b.handOut? id with
    | none => simp only [handOut, handovers, h, List.map_nil]
    | some next =>
      obtain ⟨b', e⟩ := next
      obtain ⟨q, copy, rest, s, c, _, _, _, _, hnext, rfl, _⟩ := handOut?_eq_some h
      simp only [handOut, handovers, h, hnext, ih, List.map_cons]

/-- The effects of serving the next scheduled queue are those of the handovers. -/
theorem effects_serve : b.serve.2 = b.served.map Handover.effect := by
  simp only [serve, served, queueById?]
  cases b.scheduled with
  | nil => rfl
  | cons id rest =>
    cases hq : b.queues.find? (·.id == id) with
    | none => simp only [hq, List.map_nil]
    | some q => simp only [hq, effects_handOut]

end Amqp.Broker
