import Amqp.Client.Adapter
import Amqp.Proofs.Delivery.TagMap
import Mathlib.Data.List.Basic

/-!
# What an adapter makes of a primitive

A primitive that is asked for is passed on by one call of the client and waits for the answer, or it
is refused at once. A settlement is passed on exactly if a message waits under its tag; then it
takes that message and all others that it covers, whatever the client answers. Besides settlements
only the end of the channel lets a message go.
-/

namespace Amqp

/-- The tag that a primitive settles, and whether the smaller ones are settled with it. -/
def Channel.Primitive.settles? : Channel.Primitive → Option (Nat × Bool)
  | .basicAck (.assigned n) multiple => some (n, multiple.isTruthy)
  | .basicNack (.assigned n) multiple _ => some (n, multiple.isTruthy)
  | _ => none

/-- The primitive settles deliveries. -/
def Channel.Primitive.IsSettlement : Channel.Primitive → Prop
  | .basicAck .. => True
  | .basicNack .. => True
  | _ => False

/-- The primitive aborts the channel. -/
def Channel.Primitive.IsAbort : Channel.Primitive → Prop
  | .abort _ => True
  | _ => False

/-- A settlement of an assigned tag settles that tag. -/
@[simp] theorem Channel.Request.settles?_settlePrimitive (s : Settlement) (n : Nat)
    (multiple requeue : Value) :
    (Channel.Request.settlePrimitive s n multiple requeue).settles? =
      some (n, multiple.isTruthy) := by
  cases s <;> rfl

namespace TagMap

variable {α : Type} {ledger : TagMap α} {n : Nat} {a : α}

/-- Only an assigned tag is one key with an assigned tag. -/
theorem eq_of_same_assigned {t : Tag} (h : t.same (.assigned n) = true) : t = .assigned n := by
  cases t with
  | assigned k => rw [beq_iff_eq.mp h]
  | irregular v => exact nomatch h

/-- The entry that is found under an assigned tag is on the ledger. -/
theorem mem_of_entry?_eq_some (h : ledger.entry? (.assigned n) = some a) :
    (.assigned n, a) ∈ ledger := by
  obtain ⟨⟨t, b⟩, hfind, rfl⟩ := Option.map_eq_some_iff.mp h
  have hsame := List.find?_some hfind
  obtain rfl := eq_of_same_assigned hsame
  exact List.mem_of_find?_eq_some hfind

/-- Nothing is found under an assigned tag exactly if it is not on the ledger. -/
theorem entry?_eq_none_iff :
    ledger.entry? (.assigned n) = none ↔ ∀ a, (.assigned n, a) ∉ ledger := by
  rw [ entry?, Option.map_eq_none_iff, List.find?_eq_none]
  constructor
  · intro h a ha
    exact h _ ha (beq_self_eq_true n)
  · rintro h ⟨t, a⟩ ha hsame
    obtain rfl := eq_of_same_assigned hsame
    exact h a ha

/-- A tag that is on the ledger is found there. -/
theorem exists_entry?_eq_some (h : (.assigned n, a) ∈ ledger) :
    ∃ b, ledger.entry? (.assigned n) = some b := by
  cases hb : ledger.entry? (.assigned n) with
  | none => exact absurd h (entry?_eq_none_iff.mp hb a)
  | some b => exact ⟨b, rfl⟩

end TagMap

namespace Client

/-- The call of the client that settles the tag of a message. -/
def settleCall (s : Settlement) (message : Message) (multiple requeue : Value) : Call :=
  match s with
  | .acknowledge => .ack message multiple
  | .reject => .nack message multiple requeue

/-- The message that a call settles. -/
def Call.message? : Call → Option Message
  | .ack message _ => some message
  | .nack message _ _ => some message
  | _ => none

/-- The tag that a call settles, and whether the smaller ones are settled with it. -/
def Call.settles? : Call → Option (Nat × Bool)
  | .ack message multiple => message.tag.number?.map fun n => (n, multiple.isTruthy)
  | .nack message multiple _ => message.tag.number?.map fun n => (n, multiple.isTruthy)
  | _ => none

/-- A call that settles a tag settles a message. -/
theorem Call.settles?_of_message? {call : Call} (h : call.message? = none) :
    call.settles? = none := by
  cases call with
  | ack | nack => exact nomatch h
  | _ => rfl

@[simp] theorem message?_settleCall (s : Settlement) (message : Message)
    (multiple requeue : Value) :
    (settleCall s message multiple requeue).message? = some message := by
  cases s <;> rfl

/-- The settlement of a message settles its tag. -/
theorem settles?_settleCall {message : Message} {n : Nat} (h : message.tag = .assigned n)
    (s : Settlement) (multiple requeue : Value) :
    (settleCall s message multiple requeue).settles? = some (n, multiple.isTruthy) := by
  cases s <;> simp [settleCall, Call.settles?, h, Tag.number?]

/-- The call of the client that an effect is. -/
def Effect.called? : Effect → Option Call
  | .ask _ call => some call
  | _ => none

/-- What a primitive comes to with an effect, and under which number it was asked for. -/
def Effect.ended? : Effect → Option (Nat × Channel.Outcome)
  | .finish call outcome => some (call, outcome)
  | _ => none

/-- The effect tells about something that the client has done on its own. -/
def Effect.isNews : Effect → Bool
  | .deliver .. => true
  | .cancelled .. => true
  | .lost .. => true
  | _ => false

/-- The client's calls among the effects, in order. -/
def called (effects : List Effect) : List Call := effects.filterMap Effect.called?

/-- What primitives come to with the effects. -/
def ended (effects : List Effect) : List (Nat × Channel.Outcome) :=
  effects.filterMap Effect.ended?

namespace Adapter

variable {a : Adapter} {id : Nat} {p : Channel.Primitive}

/-- What becomes of a primitive that is asked for under the number `id`. -/
inductive Issued (a : Adapter) (id : Nat) (p : Channel.Primitive) :
    Adapter × List Effect → Prop where
  /-- It is passed on by one call, and waits. -/
  | passed {r : Adapter × List Effect} (consumer : Nat) (call : Call)
      (hpending : r.1.pending = a.pending ++ [⟨id, p, consumer⟩]) (hcalled : called r.2 = [call])
      (hended : ended r.2 = []) (hnews : ∀ f ∈ r.2, f.isNews = false) : Issued a id p r
  /-- It is refused at once. -/
  | refused {r : Adapter × List Effect} (thrown : Value) (hpending : r.1.pending = a.pending)
      (hcalled : called r.2 = []) (hended : ended r.2 = [(id, .threw thrown)])
      (hnews : ∀ f ∈ r.2, f.isNews = false) : Issued a id p r

theorem issued_ask (a : Adapter) (id : Nat) (p : Channel.Primitive) (call : Call) :
    Issued a id p (a.ask id p call) :=
  .passed 0 call rfl rfl rfl (by simp [ask, Effect.isNews])

theorem issued_refuse (a : Adapter) (id : Nat) (p : Channel.Primitive) (thrown : Value) :
    Issued a id p (a.refuse id thrown) :=
  .refused thrown rfl rfl rfl (by simp [refuse, Effect.isNews])

/-- The end of the channel is passed on once it is said, unless it cannot be said. -/
theorem issued_endChannel (a : Adapter) (id : Nat) (p : Channel.Primitive)
    (entries : Except Value (List LogEntry)) : Issued a id p (a.endChannel id p entries) := by
  cases entries with
  | error fault => exact issued_refuse a id p fault
  | ok entries =>
    refine .passed 0 .close rfl ?_ ?_ ?_
    · simp [endChannel, ask, called, Effect.called?]
    · simp [endChannel, ask, ended, Effect.ended?]
    · intro f hf
      rcases List.mem_append.mp hf with hf | hf
      · obtain ⟨entry, _, rfl⟩ := List.mem_map.mp hf
        rfl
      · rw [List.mem_singleton.mp hf]
        rfl

/-- What is true of a primitive asked of an adapter with the same primitives waiting. -/
theorem Issued.of_pending {a' : Adapter} {r : Adapter × List Effect} (h : Issued a' id p r)
    (hpending : a'.pending = a.pending) : Issued a id p r := by
  cases h with
  | passed consumer call h hcalled hended hnews =>
    exact .passed consumer call (hpending ▸ h) hcalled hended hnews
  | refused thrown h hcalled hended hnews =>
    exact .refused thrown (hpending ▸ h) hcalled hended hnews

/-- What waits goes on waiting when one more primitive is asked for. -/
theorem Issued.mem_of_mem {r : Adapter × List Effect} (h : Issued a id p r) {q : Pending}
    (hq : q ∈ a.pending) : q ∈ r.1.pending := by
  cases h with
  | passed consumer _ hpending => exact hpending ▸ List.mem_append_left _ hq
  | refused _ hpending => exact hpending ▸ hq

/-- What waits then has been waiting, or is that primitive. -/
theorem Issued.mem_pending {r : Adapter × List Effect} (h : Issued a id p r) {q : Pending}
    (hq : q ∈ r.1.pending) : q ∈ a.pending ∨ q.id = id ∧ q.primitive = p := by
  cases h with
  | passed consumer _ hpending =>
    rw [hpending] at hq
    rcases List.mem_append.mp hq with hq | hq
    · exact .inl hq
    · obtain rfl := List.mem_singleton.mp hq
      exact .inr ⟨rfl, rfl⟩
  | refused _ hpending => exact .inl (hpending ▸ hq)

/-- A primitive that comes to an end at once has been refused. -/
theorem Issued.mem_ended {r : Adapter × List Effect} (h : Issued a id p r)
    {o : Nat × Channel.Outcome} (ho : o ∈ ended r.2) : ∃ thrown, o = (id, .threw thrown) := by
  cases h with
  | passed _ _ _ _ hended =>
    rw [hended] at ho
    exact nomatch ho
  | refused thrown _ _ hended =>
    rw [hended] at ho
    exact ⟨thrown, List.mem_singleton.mp ho⟩

/-- A settlement is passed on, or it is refused. -/
theorem issued_take (a : Adapter) (id : Nat) (p : Channel.Primitive) (tag : Tag) (multiple : Value)
    (call : Message → Call) : Issued a id p (a.take id p tag multiple call) := by
  unfold take
  cases a.unsettled.entry? tag with
  | none => exact issued_refuse a id p _
  | some message =>
    simp only
    cases (a.unsettled.settle tag multiple.isTruthy).fault with
    | none => exact (issued_ask _ id p _).of_pending rfl
    | some fault => exact (issued_refuse _ id p fault).of_pending rfl

/-- Every primitive is passed on by one call or refused at once. -/
theorem issued_issue (a : Adapter) (id : Nat) (p : Channel.Primitive) :
    Issued a id p (a.issue id p) := by
  cases p with
  | close params => exact issued_endChannel a id _ _
  | abort params =>
    simp only [issue]
    refine (issued_endChannel _ id _ _).of_pending ?_
    cases abortEntries (params.bind Channel.truthy?) <;> rfl
  | queueDeclare spec =>
    simp only [issue, declareQueue]
    split <;> exact issued_ask a id _ _
  | exchangeDeclare spec =>
    simp only [issue, declareExchange]
    cases spec.read "name" with
    | error fault => exact issued_refuse a id _ fault
    | ok name => exact issued_ask a id _ _
  | basicConsume queue options =>
    simp only [issue, consume]
    cases options.read "consumerTag" with
    | error fault => exact issued_refuse a id _ fault
    | ok tag =>
      exact .passed a.consumers.length _ rfl rfl rfl (by simp [Effect.isNews])
  | basicAck tag multiple => exact issued_take a id _ tag multiple _
  | basicNack tag multiple requeue => exact issued_take a id _ tag multiple _
  | _ => exact issued_ask a id _ _

/-- A settlement of a tag that no message waits under is refused, and changes nothing. -/
theorem issue_settlePrimitive_of_missing {n : Nat} (h : a.unsettled.entry? (.assigned n) = none)
    (id : Nat) (s : Settlement) (multiple requeue : Value) :
    a.issue id (Channel.Request.settlePrimitive s n multiple requeue) =
      (a, [.finish id (.threw (unknownTagFault (.assigned n)))]) := by
  cases s <;> simp only [Channel.Request.settlePrimitive, issue, take, h, refuse]

/-- A settlement of a tag that a message waits under takes what it covers, and is passed on with
that message. -/
theorem issue_settlePrimitive_of_waiting (hassigned : a.unsettled.Assigned) {n : Nat}
    {message : Message} (h : a.unsettled.entry? (.assigned n) = some message) (id : Nat)
    (s : Settlement) (multiple requeue : Value) :
    a.issue id (Channel.Request.settlePrimitive s n multiple requeue) =
      ({ a with
          unsettled := a.unsettled.filter (!·.1.coveredBy n multiple.isTruthy)
          pending := a.pending ++ [{
            id, primitive := Channel.Request.settlePrimitive s n multiple requeue }] },
        [.ask id (settleCall s message multiple requeue)]) := by
  have hkept : (a.unsettled.settle (.assigned n) multiple.isTruthy).kept = _ :=
    TagMap.kept_settle hassigned
  have hfault : (a.unsettled.settle (.assigned n) multiple.isTruthy).fault = none :=
    TagMap.fault_settle hassigned
  cases s <;>
    simp only [Channel.Request.settlePrimitive, issue, take, h, hkept, hfault, ask, await,
      settleCall]

/-- Who acknowledges what the consumers get, in the order in which they were asked for. -/
def modes (a : Adapter) : List AckMode := a.consumers.map (·.mode)

/-- Who acknowledges what a consumer gets that the primitive asks for. -/
def askedModes : Channel.Primitive → List AckMode
  | .basicConsume _ options => [if (options.field "noAck").isTruthy then .auto else .manual]
  | _ => []

/-- A consumer is asked for with the mode that its options name, if they can be read. -/
theorem modes_issue (hread : ∀ queue options, p = .basicConsume queue options →
    ∃ tag, options.read "consumerTag" = .ok tag) :
    (a.issue id p).1.modes = a.modes ++ askedModes p := by
  have htake (tag : Tag) (multiple : Value) (call : Message → Call) :
      (a.take id p tag multiple call).1.modes = a.modes := by
    unfold take
    cases a.unsettled.entry? tag with
    | none => rfl
    | some message =>
      simp only
      cases (a.unsettled.settle tag multiple.isTruthy).fault <;> rfl
  have hend (a : Adapter) (entries : Except Value (List LogEntry)) :
      (a.endChannel id p entries).1.modes = a.modes := by
    cases entries <;> rfl
  cases p with
  | basicConsume queue options =>
    obtain ⟨tag, htag⟩ := hread queue options rfl
    simp [issue, consume, htag, modes, await, askedModes]
  | close params => exact (hend a _).trans (List.append_nil _).symm
  | abort params =>
    simp only [issue, askedModes, List.append_nil]
    rw [hend]
    cases abortEntries (params.bind Channel.truthy?) <;> rfl
  | queueDeclare spec =>
    simp only [issue, declareQueue, askedModes, List.append_nil]
    split <;> rfl
  | exchangeDeclare spec =>
    simp only [issue, declareExchange, askedModes, List.append_nil]
    cases spec.read "name" <;> rfl
  | basicAck tag multiple => exact (htake tag multiple _).trans (List.append_nil _).symm
  | basicNack tag multiple requeue => exact (htake tag multiple _).trans (List.append_nil _).symm
  | _ => exact (List.append_nil _).symm

/-- Only an abort detaches an adapter. -/
theorem detached_issue (habort : ¬p.IsAbort) : (a.issue id p).1.detached = a.detached := by
  have htake (tag : Tag) (multiple : Value) (call : Message → Call) :
      (a.take id p tag multiple call).1.detached = a.detached := by
    unfold take
    cases a.unsettled.entry? tag with
    | none => rfl
    | some message =>
      simp only
      cases (a.unsettled.settle tag multiple.isTruthy).fault <;> rfl
  cases p with
  | basicAck tag multiple => exact htake tag multiple _
  | basicNack tag multiple requeue => exact htake tag multiple _
  | abort => exact absurd trivial habort
  | close params =>
    simp only [issue]
    cases closeEntries (params.bind Channel.truthy?) <;> rfl
  | queueDeclare spec =>
    simp only [issue, declareQueue]
    split <;> rfl
  | exchangeDeclare spec =>
    simp only [issue, declareExchange]
    cases spec.read "name" <;> rfl
  | basicConsume queue options =>
    simp only [issue, consume]
    cases options.read "consumerTag" <;> rfl
  | _ => rfl

/-- Only a settlement and an abort let messages go before the client is asked. -/
theorem unsettled_issue (hsettle : ¬p.IsSettlement) :
    (a.issue id p).1.unsettled = a.unsettled ∨
      p.IsAbort ∧ (a.issue id p).1.unsettled = [] := by
  cases p with
  | basicAck | basicNack => exact absurd trivial hsettle
  | abort params =>
    simp only [issue]
    cases abortEntries (params.bind Channel.truthy?) with
    | ok entries => exact .inr ⟨trivial, rfl⟩
    | error fault => exact .inl rfl
  | close params =>
    simp only [issue]
    cases closeEntries (params.bind Channel.truthy?) <;> exact .inl rfl
  | queueDeclare spec =>
    simp only [issue, declareQueue]
    split <;> exact .inl rfl
  | exchangeDeclare spec =>
    simp only [issue, declareExchange]
    cases spec.read "name" <;> exact .inl rfl
  | basicConsume queue options =>
    simp only [issue, consume]
    cases options.read "consumerTag" <;> exact .inl rfl
  | _ => exact .inl rfl

/-- Only for a settlement the client is asked to settle something. -/
theorem message?_of_mem_called (hsettle : ¬p.IsSettlement) {call : Call}
    (h : call ∈ called (a.issue id p).2) : call.message? = none := by
  have hask {a : Adapter} {p : Channel.Primitive} {call' : Call} (hcall' : call'.message? = none)
      (h : call ∈ called (a.ask id p call').2) : call.message? = none := by
    rwa [List.mem_singleton.mp h]
  have hend {a : Adapter} {p : Channel.Primitive} {entries : Except Value (List LogEntry)}
      (h : call ∈ called (a.endChannel id p entries).2) : call.message? = none := by
    obtain ⟨f, hf, hcall⟩ := List.mem_filterMap.mp h
    cases entries with
    | error fault =>
      obtain rfl := List.mem_singleton.mp hf
      exact nomatch hcall
    | ok entries =>
      rcases List.mem_append.mp hf with hf | hf
      · obtain ⟨entry, _, rfl⟩ := List.mem_map.mp hf
        exact nomatch hcall
      · obtain rfl := List.mem_singleton.mp hf
        obtain rfl := Option.some.inj hcall
        rfl
  cases p with
  | basicAck | basicNack => exact absurd trivial hsettle
  | abort params => exact hend h
  | close params => exact hend h
  | queueDeclare spec =>
    simp only [issue, declareQueue] at h
    split at h <;> exact hask rfl h
  | exchangeDeclare spec =>
    simp only [issue, declareExchange] at h
    cases hname : spec.read "name" with
    | error fault =>
      rw [hname] at h
      exact nomatch h
    | ok name =>
      rw [hname] at h
      exact hask rfl h
  | basicConsume queue options =>
    simp only [issue, consume] at h
    cases htag : options.read "consumerTag" with
    | error fault =>
      rw [htag] at h
      exact nomatch h
    | ok tag =>
      rw [htag] at h
      obtain rfl := List.mem_singleton.mp h
      rfl
  | _ => exact hask rfl h

/-- Nothing is settled for another primitive than a settlement. -/
theorem filterMap_settles?_called (hsettle : ¬p.IsSettlement) :
    (called (a.issue id p).2).filterMap Call.settles? = [] :=
  List.filterMap_eq_nil_iff.mpr fun _ hcall =>
    Call.settles?_of_message? (message?_of_mem_called hsettle hcall)

/-- What a primitive comes to when the client answers it. -/
def conclusion (p : Pending) : Channel.Outcome → Channel.Outcome
  | .threw thrown => .threw thrown
  | .replied reply =>
    match (({} : Adapter).accept p reply).2 with
    | .ok v => .replied v
    | .error thrown => .threw thrown

/-- A settlement is over as the client answers it. -/
theorem conclusion_of_settles {p : Pending} {n : Nat × Bool}
    (h : p.primitive.settles? = some n) (reply : Value) :
    conclusion p (.replied reply) = .replied .undefined := by
  unfold Channel.Primitive.settles? at h
  split at h
  · rename_i heq
    simp only [conclusion, accept, heq]
  · rename_i heq
    simp only [conclusion, accept, heq]
  · exact nomatch h

/-- What the client's answer changes. -/
structure Answered (a : Adapter) (p : Pending) (o : Channel.Outcome) (r : Adapter × List Effect) :
    Prop where
  /-- Only a close that succeeds lets messages go. -/
  unsettled : r.1.unsettled = a.unsettled ∨
    r.1.unsettled = [] ∧ (∃ params, p.primitive = .close params) ∧ ∃ reply, o = .replied reply
  pending : r.1.pending = a.pending
  modes : r.1.modes = a.modes
  detached : r.1.detached = a.detached
  called : called r.2 = []
  ended : ended r.2 = [(p.id, conclusion p o)]
  news : ∀ f ∈ r.2, f.isNews = false

/-- The tag that the broker gives a consumer does not change its mode. -/
theorem modes_started (a : Adapter) (consumer : Nat) (tag : Value) :
    (a.started consumer tag).modes = a.modes := by
  apply List.ext_getElem?
  intro i
  simp only [modes, started, List.getElem?_map, List.getElem?_modify]
  cases a.consumers[i]? with
  | none => rfl
  | some c => by_cases h : consumer = i <;> simp [h]

/-- The client answers a primitive that waits. -/
theorem step_answered {p : Pending} (h : a.pending.find? (·.id == id) = some p)
    (o : Channel.Outcome) :
    a.step (.answered id o) =
      { a with pending := a.pending.filter (·.id != id) }.answer p o := by
  simp only [step, h]

/-- What a reply means does not depend on the adapter that gets it. -/
theorem accept_snd (a : Adapter) (p : Pending) (reply : Value) :
    (a.accept p reply).2 = (({} : Adapter).accept p reply).2 := by
  obtain ⟨id, primitive, consumer⟩ := p
  cases primitive with
  | basicConsume queue options =>
    simp only [accept]
    cases reply.read "consumerTag" <;> rfl
  | _ => rfl

/-- What a reply means changes nothing but the consumers, unless a close has succeeded. -/
theorem accept_fst (a : Adapter) (p : Pending) (reply : Value) :
    ((a.accept p reply).1.unsettled = a.unsettled ∨
      (a.accept p reply).1.unsettled = [] ∧ ∃ params, p.primitive = .close params) ∧
    (a.accept p reply).1.pending = a.pending ∧ (a.accept p reply).1.modes = a.modes ∧
    (a.accept p reply).1.detached = a.detached := by
  obtain ⟨id, primitive, consumer⟩ := p
  cases primitive with
  | close params => exact ⟨.inr ⟨rfl, params, rfl⟩, rfl, rfl, rfl⟩
  | basicConsume queue options =>
    simp only [accept]
    cases reply.read "consumerTag" with
    | ok tag => exact ⟨.inl rfl, rfl, modes_started a consumer tag, rfl⟩
    | error fault => exact ⟨.inl rfl, rfl, rfl, rfl⟩
  | _ => exact ⟨.inl rfl, rfl, rfl, rfl⟩

/-- A reply is followed by the end of the primitive, and by nothing else. -/
theorem answer_replied (a : Adapter) (p : Pending) (reply : Value) :
    a.answer p (.replied reply) =
      ((a.accept p reply).1, [.finish p.id (conclusion p (.replied reply))]) := by
  have hsnd := accept_snd a p reply
  simp only [answer, conclusion, ← hsnd]
  rcases a.accept p reply with ⟨a', v | fault⟩ <;> rfl

/-- The client's answer ends one primitive. -/
theorem answered_answer (a : Adapter) (p : Pending) (o : Channel.Outcome) :
    Answered a p o (a.answer p o) := by
  cases o with
  | threw thrown => exact ⟨.inl rfl, rfl, rfl, rfl, rfl, rfl, by simp [answer, Effect.isNews]⟩
  | replied reply =>
    rw [answer_replied]
    obtain ⟨hunsettled, hpending, hmodes, hdetached⟩ := accept_fst a p reply
    refine ⟨?_, hpending, hmodes, hdetached, rfl, rfl, by simp [Effect.isNews]⟩
    rcases hunsettled with hsame | ⟨hnone, hclose⟩
    · exact .inl hsame
    · exact .inr ⟨hnone, hclose, reply, rfl⟩

end Adapter

end Client

end Amqp
