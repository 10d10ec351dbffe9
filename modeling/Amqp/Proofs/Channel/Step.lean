import Amqp.Channel.Machine

/-!
# What one step of a channel can do

`Transition` lists every change that a step can make to a channel, its calls in flight and its
waiting handlers, each with the condition under which it is made. `step_transition` proves the list
complete, so that an invariant needs one case for each change and no step is opened again.
-/

namespace Amqp

namespace Channel

/-- The delivery that a request settles. -/
def Request.delivery? : Request → Option Nat
  | .settle d .. => some d
  | _ => none

/-- Whether a request closes the channel in the orderly way. -/
def Request.isClose : Request → Bool
  | .close _ => true
  | _ => false

namespace Request

variable {r : Request} {d : Nat} {s : Settlement} {multiple requeue : Value}

/-- A request that settles a delivery is a settlement of it. -/
theorem delivery?_eq_some_iff :
    r.delivery? = some d ↔ ∃ s multiple requeue, r = .settle d s multiple requeue := by
  cases r <;> simp [delivery?]

/-- A settlement settles its delivery. -/
theorem delivery?_of_settle (h : r = .settle d s multiple requeue) : r.delivery? = some d :=
  delivery?_eq_some_iff.mpr ⟨s, multiple, requeue, h⟩

/-- A close settles no delivery. -/
theorem delivery?_of_isClose (h : r.isClose = true) : r.delivery? = none := by
  cases r with
  | settle => exact nomatch h
  | _ => rfl

/-- A settlement is no close. -/
theorem isClose_of_settle (h : r = .settle d s multiple requeue) : r.isClose = false := by
  rw [h]
  rfl

end Request

/-- The call that an event is about. -/
def Event.call? : Event → Option Nat
  | .issue call _ => some call
  | .answered call _ => some call
  | .heard call => some call
  | _ => none

/-- The call that an effect is about. -/
def Effect.call? : Effect → Option Nat
  | .ask call _ => some call
  | .await call => some call
  | .finish call _ => some call
  | _ => none

namespace Machine

variable {m : Machine}

@[simp] theorem channel_withChannel (m : Machine) (c : Channel) : (m.withChannel c).channel = c :=
  rfl

@[simp] theorem calls_withChannel (m : Machine) (c : Channel) :
    (m.withChannel c).calls = m.calls := rfl

@[simp] theorem channel_push (m : Machine) (call : Call) : (m.push call).channel = m.channel := rfl

@[simp] theorem calls_push (m : Machine) (call : Call) : (m.push call).calls = m.calls ++ [call] :=
  rfl

@[simp] theorem channel_drop (m : Machine) (id : Nat) : (m.drop id).channel = m.channel := rfl

@[simp] theorem calls_drop (m : Machine) (id : Nat) :
    (m.drop id).calls = m.calls.filter (·.id != id) := rfl

/-- A failed call is dropped, whether or not its failure can be described. -/
@[simp] theorem fail_fst (m : Machine) (id : Nat) (e : Except Value OperationError) :
    (m.fail id e).1 = m.drop id := by
  cases e <;> rfl

/-- A call that is found is in flight, under the number that was looked up. -/
theorem mem_of_call? {id : Nat} {c : Call} (h : m.call? id = some c) : c ∈ m.calls ∧ c.id = id := by
  refine ⟨List.mem_of_find?_eq_some h, ?_⟩
  have hid := List.find?_some h
  exact beq_iff_eq.mp hid

end Machine

end Channel

namespace Delivery

/-- A manual delivery that waits, under an assigned tag. -/
def Awaits (d : Delivery) (n : Nat) : Prop :=
  d.message.tag = .assigned n ∧ d.mode = .manual ∧ d.state = .unacknowledged

/-- The delivery in the state that a settlement leads to. -/
def settled (d : Delivery) (s : Settlement) : Delivery := { d with state := s.state }

/-- A settlement asks the channel exactly for a manual delivery that waits, and claims it. -/
theorem claim_asks_iff {d d' : Delivery} {s : Settlement} {n : Nat} :
    d.claim s = (.asks n, d') ↔ d.Awaits n ∧ d' = d.settled s := by
  obtain ⟨message, mode, state⟩ := d
  obtain ⟨tag, consumerTag, exchange, key, redelivered, body, properties⟩ := message
  cases tag with
  | irregular v => simp [claim, Delivery.tag, Tag.number?, Awaits]
  | assigned k =>
    cases mode <;> cases state <;>
      simp [claim, Delivery.tag, Tag.number?, Awaits, settled, eq_comm]

/-- A delivery that is settled at once is an automatic one that waits. -/
theorem claim_settled_iff {d d' : Delivery} {s : Settlement} :
    d.claim s = (.settled, d') ↔
      (∃ n, d.message.tag = .assigned n) ∧ d.mode = .auto ∧ d.state = .unacknowledged ∧
        d' = d.settled s := by
  obtain ⟨message, mode, state⟩ := d
  obtain ⟨tag, consumerTag, exchange, key, redelivered, body, properties⟩ := message
  cases tag with
  | irregular v => simp [claim, Delivery.tag, Tag.number?]
  | assigned k =>
    cases mode <;> cases state <;>
      simp [claim, Delivery.tag, Tag.number?, settled, eq_comm]

/-- A settled delivery with an assigned tag refuses every settlement. -/
theorem claim_of_settled {d : Delivery} {n : Nat} (htag : d.message.tag = .assigned n)
    (hstate : d.state ≠ .unacknowledged) (s : Settlement) :
    d.claim s = (.refused (.settled n d.state), d) := by
  simp [claim, Delivery.tag, Tag.number?, htag, hstate]

end Delivery

/-- The state that a settlement leads to is a terminal one. -/
theorem Settlement.state_ne (s : Settlement) : s.state ≠ .unacknowledged := by
  cases s <;> decide

namespace Channel

/-- A release changes the deliveries that are covered, and takes them off the ledger. -/
theorem release_fst (c : Channel) (n : Nat) (s : Settlement) (multiple : Bool) :
    (c.release n s multiple).1 =
      { c with
        deliveries := (c.pending.settle (.assigned n) multiple).covered.foldl
          (fun ds e => ds.modify e.2 (·.markSettled s)) c.deliveries
        pending := (c.pending.settle (.assigned n) multiple).kept } := by
  have hfold (covered : TagMap Nat) (c : Channel) :
      covered.foldl (fun c e => c.modifyDelivery e.2 (·.markSettled s)) c =
        { c with
          deliveries := covered.foldl (fun ds e => ds.modify e.2 (·.markSettled s))
            c.deliveries } := by
    induction covered generalizing c with
    | nil => rfl
    | cons e covered ih =>
      rw [List.foldl_cons, ih]
      rfl
  simp only [release, hfold]

@[simp] theorem isOpen_release (c : Channel) (n : Nat) (s : Settlement) (multiple : Bool) :
    (c.release n s multiple).1.isOpen = c.isOpen := by
  rw [release_fst]

@[simp] theorem closing_release (c : Channel) (n : Nat) (s : Settlement) (multiple : Bool) :
    (c.release n s multiple).1.closing = c.closing := by
  rw [release_fst]

theorem pending_release (c : Channel) (n : Nat) (s : Settlement) (multiple : Bool) :
    (c.release n s multiple).1.pending = (c.pending.settle (.assigned n) multiple).kept := by
  rw [release_fst]

namespace Machine

/-- The call that settles a tag, once its delivery is claimed: an open channel asks the transport,
and a closed one refuses. -/
def settleCall (m : Machine) (call d : Nat) (s : Settlement) (multiple requeue : Value) (n : Nat) :
    Call where
  id := call
  request := .settle d s (multiple.ifDefined (.bool false)) (requeue.ifDefined (.bool true))
  tag := n
  phase := if m.channel.isOpen then .asked true else .decided (.refused (settleClosedError s n))

/-- The call that passes a request on. -/
def passOn (m : Machine) (call : Nat) (r : Request) (summary : String) : Call where
  id := call
  request := r
  summary
  phase := .asked m.channel.isOpen

/-- The channel with a delivery claimed for a settlement. -/
def claimed (m : Machine) (d : Nat) (s : Settlement) : Channel :=
  m.channel.modifyDelivery d (·.settled s)

/-- The machine with a settlement in flight decided. -/
def decided (m : Machine) (c : Call) (v : Verdict) : Machine :=
  (m.drop c.id).push { c with phase := .decided v }

end Machine

/-- Every change that a step can make, with the condition under which it is made. -/
inductive Transition (m : Machine) : Event → Machine → Prop where
  /-- Nothing changes. -/
  | idle (e : Event) : Transition m e m
  /-- The first handler that waits gets its turn. -/
  | turned {t : Turn} {rest : List Turn} (hturns : m.turns = t :: rest) :
      Transition m .turn { m with turns := rest }
  /-- An open channel keeps a message. -/
  | arrived {consumer : Nat} {mode : AckMode} {message : Message}
      (hopen : m.channel.isOpen = true) :
      Transition m (.arrived consumer mode message)
        { m with
          channel := m.channel.receive message mode
          turns := m.turns ++ [⟨m.channel.deliveries.length, consumer⟩] }
  /-- An automatic delivery is settled without anyone being asked. -/
  | settledAlone {call d : Nat} {s : Settlement} {multiple requeue : Value} {delivery : Delivery}
      (hd : m.channel.deliveries[d]? = some delivery) (hmode : delivery.mode = .auto)
      (hstate : delivery.state = .unacknowledged) :
      Transition m (.issue call (.settle d s multiple requeue))
        (m.withChannel (m.claimed d s))
  /-- A manual delivery is claimed. -/
  | claimed {call d n : Nat} {s : Settlement} {multiple requeue : Value} {delivery : Delivery}
      (hd : m.channel.deliveries[d]? = some delivery) (hawaits : delivery.Awaits n) :
      Transition m (.issue call (.settle d s multiple requeue))
        ((m.withChannel (m.claimed d s)).push
          (m.settleCall call d s multiple requeue n))
  /-- An open channel passes a request on. -/
  | passedOn {call : Nat} {r : Request} {summary : String} (hopen : m.channel.isOpen = true)
      (hsettle : r.delivery? = none) (hclose : r.isClose = false) :
      Transition m (.issue call r) (m.push (m.passOn call r summary))
  /-- A close is passed on. -/
  | closing {call : Nat} {params : Value} {summary : String} :
      Transition m (.issue call (.close params))
        ((m.push (m.passOn call (.close params) summary)).withChannel
          { m.channel with closing := true })
  /-- An abort is passed on by a channel that is closed already. -/
  | aborted {call : Nat} {params : Value} {summary : String} :
      Transition m (.issue call (.abort params))
        ((m.push (m.passOn call (.abort params) summary)).withChannel m.channel.markClosed)
  /-- A settlement is accepted, unless some tag cannot be compared. -/
  | accepted {c : Call} {d : Nat} {s : Settlement} {multiple requeue reply : Value}
      {wasOpen : Bool} {v : Verdict} (hcall : m.call? c.id = some c)
      (hrequest : c.request = .settle d s multiple requeue) (hphase : c.phase = .asked wasOpen)
      (hv : v = ((m.channel.release c.tag s multiple.isTruthy).2.map Verdict.broke).getD
        .accepted) :
      Transition m (.answered c.id (.replied reply))
        ((m.decided c v).withChannel (m.channel.release c.tag s multiple.isTruthy).1)
  /-- A settlement is refused, unless the refusal cannot be described. -/
  | refused {c : Call} {d : Nat} {s : Settlement} {multiple requeue thrown : Value}
      {wasOpen : Bool} (hcall : m.call? c.id = some c)
      (hrequest : c.request = .settle d s multiple requeue) (hphase : c.phase = .asked wasOpen) :
      Transition m (.answered c.id (.threw thrown))
        (m.decided c (Machine.verdictOf s c.tag (.threw thrown)))
  /-- A close fails. -/
  | closeFailed {c : Call} {thrown : Value} {wasOpen : Bool} (hcall : m.call? c.id = some c)
      (hrequest : c.request.isClose = true) (hphase : c.phase = .asked wasOpen) :
      Transition m (.answered c.id (.threw thrown))
        ((m.withChannel { m.channel with closing := false }).drop c.id)
  /-- A close succeeds. -/
  | closeDone {c : Call} {reply : Value} {wasOpen : Bool} (hcall : m.call? c.id = some c)
      (hrequest : c.request.isClose = true) (hphase : c.phase = .asked wasOpen) :
      Transition m (.answered c.id (.replied reply))
        ((m.withChannel ({ m.channel with closing := false } : Channel).markClosed).drop c.id)
  /-- A request that was passed on is answered. -/
  | answered {c : Call} {o : Outcome} (hcall : m.call? c.id = some c)
      (hsettle : c.request.delivery? = none) (hclose : c.request.isClose = false) :
      Transition m (.answered c.id o) (m.drop c.id)
  /-- A delivery hears that its settlement is refused, and is given back. -/
  | restored {c : Call} {d : Nat} {s : Settlement} {multiple requeue : Value} {e : OperationError}
      (hcall : m.call? c.id = some c) (hrequest : c.request = .settle d s multiple requeue)
      (hphase : c.phase = .decided (.refused e)) :
      Transition m (.heard c.id)
        ((m.withChannel (m.channel.modifyDelivery d Delivery.restore)).drop c.id)
  /-- A delivery hears that its settlement is over in another way. -/
  | concluded {c : Call} {d : Nat} {s : Settlement} {multiple requeue : Value} {v : Verdict}
      (hcall : m.call? c.id = some c) (hrequest : c.request = .settle d s multiple requeue)
      (hphase : c.phase = .decided v) (hv : ∀ e, v ≠ .refused e) :
      Transition m (.heard c.id) (m.drop c.id)
  /-- The transport's channel is gone, and no close is being carried out. -/
  | lost {error : Option Value} (hopen : m.channel.isOpen = true)
      (hclosing : m.channel.closing = false) :
      Transition m (.lost error) (m.withChannel m.channel.markClosed)

namespace Machine

variable {m : Machine}

/-- A settlement of a number under which no delivery arrived is ignored. -/
theorem issueSettle_of_missing {call d : Nat} {s : Settlement} {multiple requeue : Value}
    (hd : m.channel.deliveries[d]? = none) :
    m.issueSettle call d s multiple requeue = (m, []) := by
  simp only [issueSettle, hd]

/-- A settlement that the delivery itself refuses is over at once, and asks nobody. -/
theorem issueSettle_of_refused {call d : Nat} {s : Settlement} {multiple requeue : Value}
    {delivery delivery' : Delivery} {fault : DeliveryFault}
    (hd : m.channel.deliveries[d]? = some delivery)
    (hclaim : delivery.claim s = (.refused fault, delivery')) :
    m.issueSettle call d s multiple requeue = (m, [.finish call (.misused fault)]) := by
  simp only [issueSettle, hd, hclaim]

/-- A claim replaces its delivery, which is the one that was looked up. -/
theorem modifyDelivery_settled {d : Nat} {delivery : Delivery} (s : Settlement)
    (hd : m.channel.deliveries[d]? = some delivery) :
    m.channel.modifyDelivery d (fun _ => delivery.settled s) = m.claimed d s := by
  simp only [claimed, modifyDelivery]
  congr 1
  apply List.ext_getElem?
  intro i
  rw [List.getElem?_modify, List.getElem?_modify]
  by_cases hi : d = i
  · simp [← hi, hd]
  · simp [hi]

/-- A settlement of a waiting automatic delivery is over at once, and asks nobody. -/
theorem issueSettle_of_settled {call d : Nat} {s : Settlement} {multiple requeue : Value}
    {delivery delivery' : Delivery} (hd : m.channel.deliveries[d]? = some delivery)
    (hclaim : delivery.claim s = (.settled, delivery')) :
    m.issueSettle call d s multiple requeue =
      (m.withChannel (m.claimed d s), [.finish call (.ok .undefined)]) := by
  obtain ⟨_, _, _, rfl⟩ := Delivery.claim_settled_iff.mp hclaim
  simp only [issueSettle, hd, hclaim, modifyDelivery_settled s hd]

/-- A settlement of a waiting manual delivery claims it and asks the transport once; a closed
channel asks nobody. -/
theorem issueSettle_of_awaits {call d n : Nat} {s : Settlement} {multiple requeue : Value}
    {delivery : Delivery} (hd : m.channel.deliveries[d]? = some delivery)
    (hawaits : delivery.Awaits n) :
    m.issueSettle call d s (multiple.ifDefined (.bool false)) (requeue.ifDefined (.bool true)) =
      ((m.withChannel (m.claimed d s)).push (m.settleCall call d s multiple requeue n),
        if m.channel.isOpen then
          [.ask call (Request.settlePrimitive s n (multiple.ifDefined (.bool false))
            (requeue.ifDefined (.bool true)))]
        else [.await call]) := by
  have hclaim := Delivery.claim_asks_iff (s := s).mpr ⟨hawaits, rfl⟩
  have hclaimed : (m.claimed d s).isOpen = m.channel.isOpen := rfl
  cases hopen : m.channel.isOpen <;>
    simp [issueSettle, hd, hclaim, modifyDelivery_settled s hd, settleCall, hclaimed, hopen]

/-- A settlement changes a machine by claiming its delivery, or not at all. -/
theorem issueSettle_transition (m : Machine) (call d : Nat) (s : Settlement)
    (multiple requeue : Value) :
    Transition m (.issue call (.settle d s multiple requeue))
      (m.issueSettle call d s (multiple.ifDefined (.bool false))
        (requeue.ifDefined (.bool true))).1 := by
  cases hd : m.channel.deliveries[d]? with
  | none =>
    rw [issueSettle_of_missing hd]
    exact .idle _
  | some delivery =>
    cases hclaim : delivery.claim s with
    | mk claim delivery' =>
      cases claim with
      | refused fault =>
        rw [issueSettle_of_refused hd hclaim]
        exact .idle _
      | settled =>
        rw [issueSettle_of_settled hd hclaim]
        obtain ⟨_, hmode, hstate, _⟩ := Delivery.claim_settled_iff.mp hclaim
        exact .settledAlone hd hmode hstate
      | asks n =>
        obtain ⟨hawaits, _⟩ := Delivery.claim_asks_iff.mp hclaim
        rw [issueSettle_of_awaits hd hawaits]
        exact .claimed hd hawaits

/-- A request that is worded changes a machine in one of the listed ways. -/
theorem issueWorded_transition (m : Machine) (call : Nat) (summary : String) (r : Request) :
    Transition m (.issue call r) (m.issueWorded call summary r).1 := by
  have hoperation (r' : Request) (hsettle : r'.delivery? = none) (hclose : r'.isClose = false) :
      Transition m (.issue call r') (m.issueOperation call r' summary).1 := by
    unfold issueOperation
    cases hopen : m.channel.isOpen with
    | false => exact .idle _
    | true =>
      cases hp : r'.primitive? with
      | none => exact .idle _
      | some p => exact .passedOn hopen hsettle hclose
  cases r with
  | close params => exact .closing
  | abort params => exact .aborted
  | settle d s multiple requeue => exact issueSettle_transition m call d s multiple requeue
  | declareExchange spec =>
    cases hopen : m.channel.isOpen with
    | false =>
      simp only [issueWorded, hopen]
      exact hoperation _ rfl rfl
    | true =>
      cases hreserved : reservedExchangeWarning? (spec.field "name") with
      | none =>
        simp only [issueWorded, hopen, hreserved]
        exact hoperation _ rfl rfl
      | some warning =>
        simp only [issueWorded, hopen, hreserved]
        exact .idle _
  | _ => exact hoperation _ rfl rfl

/-- A request changes a machine in one of the listed ways. -/
theorem issue_transition (m : Machine) (call : Nat) (r : Request) :
    Transition m (.issue call r) (m.issue call r).1 := by
  unfold issue
  cases r.summary m.channel.id with
  | ok summary => exact issueWorded_transition m call summary r
  | error fault => exact .idle _

/-- An accepted settlement brings the ledger up to date; what the delivery will hear depends on
whether all tags could be compared. -/
theorem decide_accepted (m : Machine) (c : Call) (s : Settlement) (multiple : Bool) :
    m.decide c s multiple .accepted =
      ((m.decided c (((m.channel.release c.tag s multiple).2.map Verdict.broke).getD
          .accepted)).withChannel (m.channel.release c.tag s multiple).1, [.await c.id]) := by
  simp only [decide]
  cases hfault : (m.channel.release c.tag s multiple).2 <;> rfl

/-- A settlement that is not accepted leaves the ledger alone. -/
theorem decide_fst_of_ne (m : Machine) (c : Call) (s : Settlement) (multiple : Bool) {v : Verdict}
    (hv : v ≠ .accepted) : (m.decide c s multiple v).1 = m.decided c v := by
  cases v with
  | accepted => exact absurd rfl hv
  | refused e => rfl
  | broke thrown => rfl

/-- A thrown value never accepts a settlement. -/
theorem verdictOf_threw_ne (s : Settlement) (n : Nat) (thrown : Value) :
    verdictOf s n (.threw thrown) ≠ .accepted := by
  simp only [verdictOf]
  cases OperationError.ofThrown .acknowledgement (Request.settleSummary s n) thrown <;>
    exact nofun

/-- The transport's answer changes a machine in one of the listed ways. -/
theorem answer_transition (m : Machine) {c : Call} (hcall : m.call? c.id = some c) (o : Outcome) :
    Transition m (.answered c.id o) (m.answer c o).1 := by
  unfold answer
  cases hphase : c.phase with
  | decided v => exact .idle _
  | asked wasOpen =>
    have hoperation (hsettle : c.request.delivery? = none) (hclose : c.request.isClose = false) :
        Transition m (.answered c.id o) (m.answerOperation c o).1 := by
      have hdrop : (m.answerOperation c o).1 = m.drop c.id := by
        unfold answerOperation
        cases o with
        | threw thrown => exact fail_fst _ _ _
        | replied reply =>
          cases hv : c.request.valueOf reply with
          | ok v => simp only [hv]; rfl
          | error thrown => simp only [hv]; exact fail_fst _ _ _
      rw [hdrop]
      exact .answered hcall hsettle hclose
    cases hrequest : c.request with
    | settle d s multiple requeue =>
      cases o with
      | replied reply =>
        simp only [verdictOf, decide_accepted]
        exact .accepted hcall hrequest hphase rfl
      | threw thrown =>
        rw [decide_fst_of_ne m c s _ (verdictOf_threw_ne s c.tag thrown)]
        exact .refused hcall hrequest hphase
    | close params =>
      have hisClose : c.request.isClose = true := by rw [hrequest]; rfl
      simp only [answerClose]
      cases o with
      | replied reply => exact .closeDone hcall hisClose hphase
      | threw thrown =>
        rw [fail_fst]
        exact .closeFailed hcall hisClose hphase
    | _ => exact hoperation (by rw [hrequest]; rfl) (by rw [hrequest]; rfl)

/-- What a delivery hears changes a machine in one of the listed ways. -/
theorem hear_transition (m : Machine) {c : Call} (hcall : m.call? c.id = some c) :
    Transition m (.heard c.id) (m.hear c).1 := by
  unfold hear
  cases hphase : c.phase with
  | asked wasOpen => exact .idle _
  | decided v =>
    cases hrequest : c.request with
    | settle d s multiple requeue =>
      cases v with
      | accepted => exact .concluded hcall hrequest hphase (by intro e he; cases he)
      | broke thrown => exact .concluded hcall hrequest hphase (by intro e he; cases he)
      | refused e => exact .restored hcall hrequest hphase
    | _ => cases v <;> exact .idle _

/-- The list of changes is complete. -/
theorem step_transition (m : Machine) (e : Event) : Transition m e (m.step e).1 := by
  cases e with
  | issue call r => exact issue_transition m call r
  | answered call o =>
    simp only [step]
    cases hcall : m.call? call with
    | none => exact .idle _
    | some c =>
      obtain rfl : c.id = call := (mem_of_call? hcall).2
      exact answer_transition m hcall o
  | heard call =>
    simp only [step]
    cases hcall : m.call? call with
    | none => exact .idle _
    | some c =>
      obtain rfl : c.id = call := (mem_of_call? hcall).2
      exact hear_transition m hcall
  | lost error =>
    simp only [step, Channel.lost]
    cases hopen : m.channel.isOpen with
    | false => exact .idle _
    | true =>
      cases hclosing : m.channel.closing with
      | true => exact .idle _
      | false => exact .lost hopen hclosing
  | arrived consumer mode message =>
    simp only [step, arrive]
    cases hopen : m.channel.isOpen with
    | false => exact .idle _
    | true => exact .arrived hopen
  | turn =>
    simp only [step]
    cases hturns : m.turns with
    | nil => exact .idle _
    | cons t rest => exact .turned hturns
  | handlerFailed d thrown =>
    simp only [step]
    cases m.channel.deliveries[d]? <;> exact .idle _
  | cancelled consumerTag queue =>
    simp only [step]
    cases cancelledEntry consumerTag queue <;> exact .idle _

end Machine

end Channel

end Amqp
