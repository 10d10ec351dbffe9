import Amqp.Proofs.Channel.Answer
import Amqp.Proofs.Channel.Asking
import Amqp.Proofs.Channel.Closing

/-!
# What a closed channel does

A closed channel stays closed, whatever was in flight when it was closed. It keeps no ledger and no
message, asks the transport for nothing but another end, and starts no handlers but those of
messages that arrived before. Operations fail with their own kind, and a settlement fails too and
gives its delivery back.
-/

namespace Amqp.Channel

/-- The request ends the channel. -/
def Request.IsEnd : Request → Prop
  | .close _ => True
  | .abort _ => True
  | _ => False

namespace Machine

variable {m : Machine} {e : Event} {call d n : Nat} {s : Settlement} {multiple requeue : Value}

/-- A closed channel stays closed. -/
theorem isOpen_run_of_closed (h : m.channel.isOpen = false) (events : List Event) :
    (m.run events).1.channel.isOpen = false := by
  induction events generalizing m with
  | nil => exact h
  | cons e events ih =>
    refine ih (Bool.eq_false_iff.mpr fun hopen => ?_)
    exact nomatch h.symm.trans (isOpen_step_iff.mp hopen).1

/-- A closed channel asks only for an end. -/
theorem isEnd_of_ask_mem_step {p : Primitive} (h : m.channel.isOpen = false)
    (hask : .ask call p ∈ (m.step e).2) : p.IsEnd := by
  obtain ⟨c, hasks, _⟩ := asks_of_mem_step hask
  cases hasks with
  | operation _ hopen => exact hopen.resolve_left fun hopen => nomatch h.symm.trans hopen
  | settlement hopen => exact nomatch h.symm.trans hopen

/-- So it does in a whole run. -/
theorem isEnd_of_ask_mem_run {p : Primitive} {events : List Event} (h : m.channel.isOpen = false)
    (hask : .ask call p ∈ (m.run events).2) : p.IsEnd := by
  induction events generalizing m with
  | nil => exact nomatch hask
  | cons e events ih =>
    rcases List.mem_append.mp hask with hask | hask
    · exact isEnd_of_ask_mem_step h hask
    · exact ih (isOpen_run_of_closed h [e]) hask

/-- A closed channel lets no more handlers wait. -/
theorem turns_step_subset (h : m.channel.isOpen = false) (e : Event) :
    (m.step e).1.turns ⊆ m.turns := by
  have hchange := m.step_transition e
  generalize (m.step e).1 = m' at hchange
  cases hchange with
  | turned hturns =>
    rw [hturns]
    exact List.subset_cons_self ..
  | arrived hopen => exact nomatch h.symm.trans hopen
  | _ => exact List.Subset.refl _

/-- It starts only handlers that wait already. -/
theorem mem_turns_of_start_mem_run {t : Turn} {events : List Event}
    (h : m.channel.isOpen = false) (hstart : .start t ∈ (m.run events).2) : t ∈ m.turns := by
  induction events generalizing m with
  | nil => exact nomatch hstart
  | cons e events ih =>
    rcases List.mem_append.mp hstart with hstart | hstart
    · exact List.mem_of_head? (head_of_start_mem_step hstart).2
    · exact turns_step_subset h e (ih (isOpen_run_of_closed h [e]) hstart)

/-- A closed channel takes no notice of a message that arrives. -/
theorem step_arrived_of_closed (h : m.channel.isOpen = false) (consumer : Nat) (mode : AckMode)
    (message : Message) : m.step (.arrived consumer mode message) = (m, []) := by
  simp [step, arrive, h]

/-- On a closed channel, a request that neither ends the channel nor settles a delivery fails with
its own kind, and changes nothing. -/
theorem step_issue_of_closed {r : Request} (h : m.channel.isOpen = false) (htyped : r.Typed)
    (hend : ¬r.IsEnd) (hsettle : r.delivery? = none) (call : Nat) :
    ∃ e, e.kind = r.kind ∧ m.step (.issue call r) = (m, [.finish call (.failed e)]) := by
  obtain ⟨summary, hsummary⟩ := htyped.exists_summary m.channel.id
  refine ⟨m.channel.closedError r summary, rfl, ?_⟩
  have hoperation : m.issueOperation call r summary =
      (m, [.finish call (.failed (m.channel.closedError r summary))]) := by
    rw [issueOperation, h, if_neg Bool.false_ne_true]
  simp only [step, issue, hsummary]
  cases r with
  | close params | abort params => exact absurd trivial hend
  | settle => cases hsettle
  | declareExchange spec =>
    simp only [issueWorded, h]
    exact hoperation
  | _ => exact hoperation

/-- A closed channel refuses the settlement of a delivery that waits, without asking anybody; the
delivery is claimed until it hears of that. -/
theorem step_settle_of_closed {delivery : Delivery} (h : m.channel.isOpen = false)
    (hd : m.channel.deliveries[d]? = some delivery) (hawaits : delivery.Awaits n) (call : Nat)
    (s : Settlement) (multiple requeue : Value) :
    m.step (.issue call (.settle d s multiple requeue)) =
      ((m.withChannel (m.claimed d s)).push (m.settleCall call d s multiple requeue n),
        [.await call]) := by
  have hissue : m.step (.issue call (.settle d s multiple requeue)) = _ :=
    issueSettle_of_awaits hd hawaits
  rwa [h, if_neg Bool.false_ne_true] at hissue

/-- Whoever settles a delivery has it for himself, and has claimed it. -/
structure Exclusive (m : Machine) : Prop where
  unique : m.UniqueIds
  claimed : ∀ c ∈ m.calls, ∀ d, c.request.delivery? = some d →
    ∃ state, m.channel.state? d = some state ∧ state ≠ .unacknowledged
  single : ∀ c ∈ m.calls, ∀ c' ∈ m.calls, ∀ d, c.request.delivery? = some d →
    c'.request.delivery? = some d → c = c'

namespace Exclusive

/-- A delivery whose settlement is in flight is not there to be asked for. -/
theorem not_awaits (h : m.Exclusive) {c : Call} (hc : c ∈ m.calls)
    (hd : c.request.delivery? = some d) {delivery : Delivery}
    (hdelivery : m.channel.deliveries[d]? = some delivery) : ¬delivery.Awaits n := by
  obtain ⟨state, hstate, hne⟩ := h.claimed c hc d hd
  rw [state?, hdelivery, Option.map_some] at hstate
  intro hawaits
  exact hne ((Option.some.inj hstate).symm.trans hawaits.2.2)

/-- While its settlement is in flight, a delivery is in one terminal state. -/
theorem state?_step (h : m.Exclusive) {c : Call} {state : DeliveryState} (hc : c ∈ m.calls)
    (hd : c.request.delivery? = some d) (hstate : m.channel.state? d = some state)
    (hne : state ≠ .unacknowledged) (he : e ≠ .heard c.id) :
    (m.step e).1.channel.state? d = some state := by
  rcases state?_step_of_ne hstate hne e with hkept | ⟨c', s, multiple, requeue, error, rfl, hcall,
    hrequest, _⟩
  · exact hkept
  · have hsame := h.single c hc c' (mem_of_call? hcall).1 d hd
      (Request.delivery?_of_settle hrequest)
    exact absurd (congrArg (Event.heard ·.id) hsame.symm) he

/-- A settlement in flight after a step has claimed its delivery. -/
theorem claimed_step (h : m.Exclusive) {c : Call} (hc : c ∈ (m.step e).1.calls)
    (hd : c.request.delivery? = some d) :
    ∃ state, (m.step e).1.channel.state? d = some state ∧ state ≠ .unacknowledged := by
  rcases origin_step hc with ⟨c₀, hc₀, hid, hrequest₀, _⟩ | ⟨_, hnone⟩ |
    ⟨d', s, multiple, requeue, delivery, n, rfl, hdelivery, hawaits, hc', hchannel⟩
  · have hd₀ : c₀.request.delivery? = some d := hrequest₀ ▸ hd
    obtain ⟨state, hstate, hne⟩ := h.claimed c₀ hc₀ d hd₀
    rcases state?_step_of_ne hstate hne e with hkept | ⟨c', s, multiple, requeue, error, rfl, hcall,
      hrequest, hphase⟩
    · exact ⟨state, hkept, hne⟩
    · -- A settlement that gives its delivery back is over, so it is not this one.
      have hsame := h.single c₀ hc₀ c' (mem_of_call? hcall).1 d hd₀
        (Request.delivery?_of_settle hrequest)
      rw [step_heard_of_refused hcall hrequest hphase] at hc
      exact absurd (hid.symm.trans (congrArg Call.id hsame)) (mem_calls_drop.mp hc).2
  · exact nomatch hnone.symm.trans hd
  · rw [hc'] at hd
    cases hd
    exact ⟨s.state, by rw [hchannel, state?_claimed hdelivery], s.state_ne⟩

/-- Every step under a fresh number keeps the settlements in flight exclusive. -/
theorem step (h : m.Exclusive) (hnew : e.NewFor m) : (m.step e).1.Exclusive where
  unique := h.unique.step hnew
  claimed := fun _ hc _ hd => h.claimed_step hc hd
  single := by
    intro c hc c' hc' d hd hd'
    refine eq_of_mem_calls_step (P := fun r => r.delivery? = some d) ?_ (h.unique.step hnew)
      (fun c hc c' hc' => h.single c hc c' hc' d) ?_ hc hc' hd hd'
    · intro r hr
      rw [hr]
      exact nofun
    · intro call d' s multiple requeue delivery n _ hdelivery hawaits hrequest c₀ hc₀ hd₀
      cases hrequest
      exact h.not_awaits hc₀ hd₀ hdelivery hawaits

end Exclusive

end Machine

variable {id : String} {u rest mid : List Event} {call d n : Nat}

/-- In a numbered run, whoever settles a delivery has it for himself. -/
theorem Numbered.exclusive {events : List Event} (h : Numbered events) :
    (reached id events).Exclusive := by
  have hstart : (opened id).Exclusive :=
    ⟨List.nodup_nil, fun _ hc => (nomatch hc), fun _ hc => (nomatch hc)⟩
  refine reached_invariant hstart events ?_
  rintro u e v rfl hu
  exact hu.step h.newFor

/-- What happens to others leaves a delivery claimed whose settlement is in flight. -/
theorem Numbered.state?_append {v : List Event} {c : Call} {state : DeliveryState}
    (hnumbered : Numbered (u ++ mid ++ v)) (hcall : (reached id u).call? call = some c)
    (hd : c.request.delivery? = some d) (hstate : (reached id u).channel.state? d = some state)
    (hne : state ≠ .unacknowledged) (hmid : ∀ e ∈ mid, e.call? ≠ some call) :
    (reached id (u ++ mid)).channel.state? d = some state := by
  have hend : (reached id (u ++ mid)).call? call = some c ∧
      (reached id (u ++ mid)).channel.state? d = some state := by
    refine reached_keeps (P := fun m => m.call? call = some c ∧ m.channel.state? d = some state)
      ⟨hcall, hstate⟩ mid ?_
    rintro x e y rfl ⟨hcall, hstate⟩
    have he := hmid e (by simp)
    have hnumbered' : Numbered (u ++ x ++ (e :: y ++ v)) := by simpa using hnumbered
    obtain ⟨hc, rfl⟩ := Machine.mem_of_call? hcall
    refine ⟨(Machine.call?_step_of_ne he).trans hcall, ?_⟩
    refine hnumbered'.of_append_left.exclusive.state?_step hc hd hstate hne ?_
    rintro rfl
    exact he rfl
  exact hend.2

/-- What a settlement of a delivery comes to on a closed channel, given what the run does from the
settlement on and the channel once the delivery has heard: nobody is asked, the call fails, and the
delivery waits as before. -/
def RefusedAsClosed (call d : Nat) (effects : List Effect) (heard : Machine) : Prop :=
  (∃ e, e.kind = .acknowledgement ∧ concerning call effects =
    [.await call, .finish call (.failed e)]) ∧
  heard.channel.state? d = some .unacknowledged

/-- On a closed channel, the settlement of a delivery that waits is refused until the delivery hears
of that, whatever happens to others meanwhile. -/
theorem Numbered.refused_of_closed {after : List Event} {s : Settlement} {multiple requeue : Value}
    {delivery : Delivery} (hclosed : (reached id u).channel.isOpen = false)
    (hd : (reached id u).channel.deliveries[d]? = some delivery) (hawaits : delivery.Awaits n)
    (hnumbered : Numbered (u ++ .issue call (.settle d s multiple requeue) :: (mid ++ after)))
    (hmid : ∀ e ∈ mid, e.call? ≠ some call) :
    ∃ c multiple' requeue', c.request = .settle d s multiple' requeue' ∧
      c.phase = .decided (.refused (settleClosedError s n)) ∧
      (reached id (u ++ .issue call (.settle d s multiple requeue) :: mid)).call? call = some c ∧
      (reached id (u ++ .issue call (.settle d s multiple requeue) :: mid)).channel.state? d =
        some s.state := by
  have hissue := Machine.step_settle_of_closed hclosed hd hawaits call s multiple requeue
  have hnew : (reached id u).call? call = none :=
    Numbered.call?_eq_none (x := []) (by simpa using hnumbered) rfl
  have hissued : (reached id (u ++ [.issue call (.settle d s multiple requeue)])).call? call =
      some ((reached id u).settleCall call d s multiple requeue n) := by
    rw [reached_concat, hissue]
    exact Machine.call?_push_self
      (c := (reached id u).settleCall call d s multiple requeue n) hnew
  have hclaimed : (reached id (u ++ [.issue call (.settle d s multiple requeue)])).channel.state?
      d = some s.state := by
    rw [reached_concat, hissue]
    exact state?_claimed hd
  have hcut : u ++ .issue call (.settle d s multiple requeue) :: mid =
      u ++ [.issue call (.settle d s multiple requeue)] ++ mid := by simp
  have hnumbered' :
      Numbered (u ++ [.issue call (.settle d s multiple requeue)] ++ mid ++ after) := by
    simpa using hnumbered
  refine ⟨(reached id u).settleCall call d s multiple requeue n, _, _, rfl, ?_, ?_, ?_⟩
  · rw [Machine.settleCall, hclosed, if_neg Bool.false_ne_true]
  · rw [hcut, reached_append]
    exact (Machine.run_of_ne hmid).1.trans hissued
  · rw [hcut]
    exact hnumbered'.state?_append hissued rfl hclaimed s.state_ne hmid

/-- On a closed channel, the settlement of a delivery that waits fails, and gives it back. -/
theorem refusedAsClosed {after : List Event} {s : Settlement} {multiple requeue : Value}
    {delivery : Delivery} (hclosed : (reached id u).channel.isOpen = false)
    (hd : (reached id u).channel.deliveries[d]? = some delivery) (hawaits : delivery.Awaits n)
    (hnumbered : Numbered (u ++ .issue call (.settle d s multiple requeue) ::
      (mid ++ .heard call :: after))) (hmid : ∀ e ∈ mid, e.call? ≠ some call) :
    RefusedAsClosed call d
      ((reached id u).run (.issue call (.settle d s multiple requeue) ::
        (mid ++ .heard call :: after))).2
      (reached id (u ++ .issue call (.settle d s multiple requeue) :: (mid ++ [.heard call]))) := by
  obtain ⟨c, multiple', requeue', hrequest, hphase, hcall, hstate⟩ :=
    hnumbered.refused_of_closed hclosed hd hawaits hmid
  constructor
  · have hover := Machine.step_heard_of_decided hcall hrequest hphase
    have hissue := Machine.step_settle_of_closed hclosed hd hawaits call s multiple requeue
    have hafter : call ∉ after.filterMap Event.issued? := by
      intro hmem
      obtain ⟨e, he, hissued⟩ := List.mem_filterMap.mp hmem
      exact hnumbered.notMem_after rfl (List.mem_filterMap.mpr ⟨e, by simp [he], hissued⟩)
    rw [reached_append, Machine.run_cons_fst] at hover
    refine ⟨settleClosedError s n, rfl, ?_⟩
    rw [Machine.run, concerning_append, Machine.run_append, concerning_append,
      (Machine.run_of_ne hmid).2, Machine.run, concerning_append, hover.2,
      Machine.run_of_over hover.1 hafter, hissue, concerning_await]
    rfl
  · obtain ⟨-, rfl⟩ := Machine.mem_of_call? hcall
    rw [← List.cons_append, ← List.append_assoc, reached_concat,
      Machine.step_heard_of_refused hcall hrequest hphase]
    exact state?_restore hstate

/-- Once a channel is closed it is closed for good, with nothing left to settle. It asks for no
primitive that does not end the transport's channel, starts no handler but of a delivery that
arrived before, and takes no notice of messages that arrive. Every operation but another end fails
with its own kind, and every settlement of a delivery that waits fails and gives it back. -/
theorem closed_absorbing (hclosed : (reached id u).channel.isOpen = false) (rest : List Event) :
    (reached id (u ++ rest)).channel.isOpen = false ∧
    (reached id (u ++ rest)).channel.unsettledCount = 0 ∧
    (∀ call p, .ask call p ∈ ((reached id u).run rest).2 → p.IsEnd) ∧
    (∀ t, .start t ∈ ((reached id u).run rest).2 → t ∈ (reached id u).turns) ∧
    (∀ consumer mode message, (reached id (u ++ rest)).step (.arrived consumer mode message) =
      (reached id (u ++ rest), [])) ∧
    (∀ call r, r.Typed → ¬r.IsEnd → r.delivery? = none → ∃ e, e.kind = r.kind ∧
      (reached id (u ++ rest)).step (.issue call r) =
        (reached id (u ++ rest), [.finish call (.failed e)])) ∧
    ∀ call d n s multiple requeue mid after delivery,
      (reached id (u ++ rest)).channel.deliveries[d]? = some delivery → delivery.Awaits n →
      Numbered (u ++ rest ++ .issue call (.settle d s multiple requeue) ::
        (mid ++ .heard call :: after)) →
      (∀ e ∈ mid, e.call? ≠ some call) →
      RefusedAsClosed call d
        ((reached id (u ++ rest)).run (.issue call (.settle d s multiple requeue) ::
          (mid ++ .heard call :: after))).2
        (reached id (u ++ rest ++ .issue call (.settle d s multiple requeue) ::
          (mid ++ [.heard call]))) := by
  have hstill : (reached id (u ++ rest)).channel.isOpen = false := by
    rw [reached_append]
    exact Machine.isOpen_run_of_closed hclosed rest
  refine ⟨hstill, ?_, ?_, ?_, Machine.step_arrived_of_closed hstill, ?_, ?_⟩
  · rw [unsettledCount, reached_shut id _ hstill, List.length_nil]
  · exact fun call p => Machine.isEnd_of_ask_mem_run hclosed
  · exact fun t => Machine.mem_turns_of_start_mem_run hclosed
  · exact fun call r htyped hend hsettle =>
      Machine.step_issue_of_closed hstill htyped hend hsettle call
  · exact fun call d n s multiple requeue mid after delivery hd hawaits hnumbered hmid =>
      refusedAsClosed hstill hd hawaits hnumbered hmid

/-- Two messages arrive and the channel is aborted, while a declaration is in flight. -/
def aborted : List Event :=
  [.arrived 0 .manual (messageOf 1), .arrived 0 .manual (messageOf 2),
    .issue 0 (.declareQueue .undefined), .issue 1 (.abort .undefined)]

/-- After an abort the declaration is answered, and then a message is settled in vain, and the
declaration of a reserved exchange fails. -/
theorem closed_absorbing_aborted :
    (reached "c" aborted).channel.isOpen = false ∧
    RefusedAsClosed 2 1
      ((reached "c" (aborted ++ [.answered 0 (.replied .undefined)])).run
        [.issue 2 (.settle 1 .reject .undefined .undefined), .heard 2]).2
      (reached "c" (aborted ++ [.answered 0 (.replied .undefined)] ++
        [.issue 2 (.settle 1 .reject .undefined .undefined), .heard 2])) ∧
    ∃ e, e.kind = .exchangeDeclaration ∧
      (reached "c" (aborted ++ [.answered 0 (.replied .undefined)])).step
          (.issue 2 (.declareExchange (.table [("name", .text "amq.topic")]))) =
        (reached "c" (aborted ++ [.answered 0 (.replied .undefined)]),
          [.finish 2 (.failed e)]) := by
  have hclosed : (reached "c" aborted).channel.isOpen = false := rfl
  obtain ⟨_, _, _, _, _, hoperation, hsettlement⟩ :=
    closed_absorbing hclosed [.answered 0 (.replied .undefined)]
  refine ⟨hclosed, ?_, ?_⟩
  · exact hsettlement 2 1 2 .reject .undefined .undefined [] []
      ⟨messageOf 2, .manual, .unacknowledged⟩ rfl ⟨rfl, rfl, rfl⟩ (by decide)
      (fun _ he => nomatch he)
  · exact hoperation 2 (.declareExchange (.table [("name", .text "amq.topic")]))
      ⟨"amq.topic", rfl⟩ (fun h => h) rfl

end Amqp.Channel
