import Amqp.Proofs.Session.Agreement

/-!
# Settling again what the client refused

A settlement lets the messages that it covers go before the client is called. If the client refuses,
the channel gives its delivery back, but the messages are gone. The main statement says exactly
which settlements of a waiting delivery reach the client: those whose tag no settlement has covered
that the client got before, whether it accepted that or refused it.
-/

namespace Amqp

namespace Session

open Channel (Machine)

variable {s : Session} {id : String} {u : List Event} {call d n : Nat} {st : Settlement}
  {multiple requeue : Value} {delivery : Delivery}

section Passing

variable (call : Nat) (st : Settlement) (multiple requeue : Value)

/-- An open channel passes on the settlement of a delivery that waits. -/
theorem forwarded_settle (hopen : s.machine.channel.isOpen = true)
    (hd : s.machine.channel.deliveries[d]? = some delivery) (hawaits : delivery.Awaits n) :
    s.carried (.issue call (.settle d st multiple requeue)) =
      s.adapter.issue call (Channel.Request.settlePrimitive st n
        (multiple.ifDefined (.bool false)) (requeue.ifDefined (.bool true))) := by
  have hforwarded : s.forwarded (.issue call (.settle d st multiple requeue)) =
      [.issue call (Channel.Request.settlePrimitive st n (multiple.ifDefined (.bool false))
        (requeue.ifDefined (.bool true)))] := by
    rw [forwarded, Machine.step_settle_of_awaits hd hawaits, hopen]
    rfl
  rw [carried, hforwarded, adapter_run_singleton]
  rfl

/-- The settlement of a tag that no message waits under does not reach the client; it fails. -/
theorem settle_of_missing (hopen : s.machine.channel.isOpen = true)
    (hd : s.machine.channel.deliveries[d]? = some delivery) (hawaits : delivery.Awaits n)
    (hmissing : s.adapter.unsettled.entry? (.assigned n) = none) :
    s.calls (.issue call (.settle d st multiple requeue)) = [] ∧
      (s.step (.issue call (.settle d st multiple requeue))).outcomes =
        s.outcomes ++ [(call, .threw (Client.Adapter.unknownTagFault (.assigned n)))] := by
  have hcarried := forwarded_settle call st multiple requeue hopen hd hawaits
  rw [Client.Adapter.issue_settlePrimitive_of_missing hmissing] at hcarried
  refine ⟨by rw [calls, hcarried]; rfl, ?_⟩
  rw [step_of_carried hcarried rfl]
  rfl

/-- The settlement of a tag that a message waits under reaches the client with that message, and
lets go of all messages that it covers. -/
theorem settle_of_waiting (hopen : s.machine.channel.isOpen = true)
    (hd : s.machine.channel.deliveries[d]? = some delivery) (hawaits : delivery.Awaits n)
    (hassigned : s.adapter.unsettled.Assigned) {m : Message}
    (hentry : s.adapter.unsettled.entry? (.assigned n) = some m) :
    s.calls (.issue call (.settle d st multiple requeue)) =
        [Client.settleCall st m (multiple.ifDefined (.bool false))
          (requeue.ifDefined (.bool true))] ∧
      (s.step (.issue call (.settle d st multiple requeue))).adapter.unsettled =
        s.adapter.unsettled.filter
          (!·.1.coveredBy n (multiple.ifDefined (.bool false)).isTruthy) := by
  have hcarried := forwarded_settle call st multiple requeue hopen hd hawaits
  rw [Client.Adapter.issue_settlePrimitive_of_waiting hassigned hentry] at hcarried
  refine ⟨by rw [calls, hcarried]; rfl, ?_⟩
  rw [step_of_carried hcarried rfl]

end Passing

/-- The client's refusal brings no message back. -/
theorem unsettled_step_threw (s : Session) (call : Nat) (thrown : Value) :
    (s.step (.replied call (.threw thrown))).adapter.unsettled = s.adapter.unsettled := by
  have hchange := replied_transition s call (.threw thrown)
  generalize s.step _ = s', s.calls _ = calls at hchange
  cases hchange with
  | @replied _ _ p hp =>
    have hanswer := Client.Adapter.answered_answer
      { s.adapter with pending := s.adapter.pending.filter (·.id != call) } p (.threw thrown)
    rcases hanswer.unsettled with hsame | ⟨_, _, reply, hreply⟩
    · exact hsame
    · exact nomatch hreply
  | aside => rfl

/-- What a settlement has covered stays covered. -/
theorem Covered.append {k : Nat} (h : Covered (settlements id u) k) (v : List Event) :
    Covered (settlements id (u ++ v)) k := by
  obtain ⟨a, ha, hcovers⟩ := h
  refine ⟨a, ?_, hcovers⟩
  rw [settlements, called, callsFrom_append, List.filterMap_append]
  exact List.mem_append_left _ ha

/-- A settlement of a waiting delivery reaches the client, with the message of the delivery and the
flags asked for, exactly if no settlement has covered its tag that the client got before; otherwise
it fails. Whether the client accepted that settlement makes no difference: one that it refuses takes
all that it covers away, and what it has covered stays so. -/
theorem settle_reaches_iff_not_covered
    (hproper : Proper (u ++ [.issue call (.settle d st multiple requeue)]))
    (hopen : (reached id u).machine.channel.isOpen = true) (hnotEnding : ¬(reached id u).Ending)
    (hd : (reached id u).machine.channel.deliveries[d]? = some delivery)
    (hawaits : delivery.Awaits n) :
    ((∃ m ∈ messages u, delivery.message = m.received ∧
        (reached id u).calls (.issue call (.settle d st multiple requeue)) =
          [Client.settleCall st m (multiple.ifDefined (.bool false))
            (requeue.ifDefined (.bool true))]) ↔ ¬Covered (settlements id u) n) ∧
    (Covered (settlements id u) n →
      (reached id u).calls (.issue call (.settle d st multiple requeue)) = [] ∧
      (reached id (u ++ [.issue call (.settle d st multiple requeue)])).outcomes =
        (reached id u).outcomes ++
          [(call, .threw (Client.Adapter.unknownTagFault (.assigned n)))]) ∧
    (¬Covered (settlements id u) n → ∀ thrown,
      (reached id (u ++ [.issue call (.settle d st multiple requeue),
          .replied call (.threw thrown)])).adapter.unsettled =
        (reached id u).adapter.unsettled.filter
          (!·.1.coveredBy n (multiple.ifDefined (.bool false)).isTruthy) ∧
      ∀ v k, Covers n (multiple.ifDefined (.bool false)).isTruthy k →
        Covered (settlements id (u ++ .issue call (.settle d st multiple requeue) ::
          .replied call (.threw thrown) :: v)) k) := by
  have hu : Proper u := hproper.of_append_left
  have haccounted : (reached id u).Accounted (messages u) (settlements id u) := hu.accounted
  have hmanual : (reached id u).machine.channel.Manual d n := .of_awaits hd hawaits
  -- A covered tag is off the adapter's account, and any other is on it.
  have hmissing (hcovered : Covered (settlements id u) n) :
      (reached id u).adapter.unsettled.entry? (.assigned n) = none :=
    TagMap.entry?_eq_none_iff.mpr fun m hm => haccounted.taken n ⟨m, hm⟩ hcovered
  have hwaiting (hnot : ¬Covered (settlements id u) n) :
      ∃ m, (reached id u).adapter.unsettled.entry? (.assigned n) = some m := by
    rcases haccounted.held ⟨hopen, hnotEnding⟩ d n hmanual with ⟨m, hm⟩ | hcovered
    · exact TagMap.exists_entry?_eq_some hm
    · exact absurd hcovered hnot
  refine ⟨⟨?_, ?_⟩, ?_, ?_⟩
  · rintro ⟨m, _, _, hcalls⟩ hcovered
    have hnone := (settle_of_missing call st multiple requeue hopen hd hawaits
      (hmissing hcovered)).1
    exact nomatch hcalls.symm.trans hnone
  · intro hnot
    obtain ⟨m, hentry⟩ := hwaiting hnot
    obtain ⟨hpast, hmessage⟩ := hu.message_eq hd hawaits (TagMap.mem_of_entry?_eq_some hentry)
    exact ⟨m, hpast, hmessage,
      (settle_of_waiting call st multiple requeue hopen hd hawaits haccounted.assigned hentry).1⟩
  · intro hcovered
    rw [reached_concat]
    exact settle_of_missing call st multiple requeue hopen hd hawaits (hmissing hcovered)
  · intro hnot thrown
    obtain ⟨m, hentry⟩ := hwaiting hnot
    have htag : m.tag = .assigned n :=
      (haccounted.kept _ _ (TagMap.mem_of_entry?_eq_some hentry)).2.1.symm
    obtain ⟨hcalls, hunsettled⟩ := settle_of_waiting call st multiple requeue hopen hd hawaits
      haccounted.assigned hentry
    constructor
    · rw [← List.singleton_append, ← List.append_assoc, reached_concat, unsettled_step_threw,
        reached_concat, hunsettled]
    · intro v k hcovers
      rw [← List.singleton_append, ← List.append_assoc]
      refine Covered.append ⟨(n, (multiple.ifDefined (.bool false)).isTruthy), ?_, hcovers⟩ _
      rw [settlements_concat, hcalls]
      refine List.mem_append_right _ ?_
      rw [List.filterMap_cons, Client.settles?_settleCall htag]
      exact List.mem_singleton_self _

/-- A settlement that the client refuses, up to the moment when its delivery hears of it. -/
def refused (call d : Nat) (st : Settlement) (multiple requeue thrown : Value) : List Event :=
  [.issue call (.settle d st multiple requeue), .replied call (.threw thrown), .answered call,
    .heard call]

/-- A consumer is started, and a message arrives for it. -/
def receiving : List Event :=
  [.issue 0 (.consume (.text "jobs") (.table [])), .replied 0 startedReply, .answered 0,
    .handed 0 (Channel.messageOf 1)]

/-- What the client throws when its channel is going down. -/
def closingFault : Value := .error "Error" "Channel closing" []

/-- The message that arrived is settled, and the client refuses that. -/
def refusing : List Event :=
  receiving ++ refused 1 0 .acknowledge .undefined .undefined closingFault

/-- The delivery of that run once it is given back. -/
def givenBack : Delivery := ⟨(Channel.messageOf 1).received, .manual, .unacknowledged⟩

/-- To settle the message once more is proper. -/
theorem proper_refusing :
    Proper (refusing ++ [.issue 2 (.settle 0 .acknowledge .undefined .undefined)]) := by
  refine ⟨by decide, by decide, ?_, by decide⟩
  intro m hm
  have hm : m ∈ [Channel.messageOf 1] := hm
  rw [List.mem_singleton.mp hm]
  exact ⟨1, rfl⟩

/-- In that run the delivery waits again, but to settle it once more does not reach the client. -/
theorem settle_reaches_iff_not_covered_refusing :
    Proper (refusing ++ [.issue 2 (.settle 0 .acknowledge .undefined .undefined)]) ∧
      (reached "c" refusing).machine.channel.isOpen = true ∧ ¬(reached "c" refusing).Ending ∧
      (reached "c" refusing).machine.channel.deliveries[0]? = some givenBack ∧
      (reached "c" refusing).calls (.issue 2 (.settle 0 .acknowledge .undefined .undefined)) =
        [] := by
  have hopen : (reached "c" refusing).machine.channel.isOpen = true := rfl
  have hnotEnding : ¬(reached "c" refusing).Ending := not_ending_of_outcomes rfl
  have hd : (reached "c" refusing).machine.channel.deliveries[0]? = some givenBack := rfl
  have hcovered : Covered (settlements "c" refusing) 1 :=
    ⟨(1, false), List.mem_singleton_self _, .inl rfl⟩
  have hretry := (settle_reaches_iff_not_covered (n := 1) proper_refusing hopen hnotEnding hd
    ⟨rfl, rfl, rfl⟩).2.1 hcovered
  exact ⟨proper_refusing, hopen, hnotEnding, hd, hretry.1⟩

/-- A settlement that the client refuses can take its message away, and then its delivery, which is
given back, cannot be settled any more. -/
theorem exists_refused_settlement_forgotten :
    (¬∀ (id : String) (u : List Event) (call d : Nat) (st : Settlement)
        (multiple requeue thrown : Value),
      Proper (u ++ [.issue call (.settle d st multiple requeue)]) →
      (reached id u).machine.channel.isOpen = true → ¬(reached id u).Ending →
      (reached id u).calls (.issue call (.settle d st multiple requeue)) ≠ [] →
      (reached id (u ++ [.issue call (.settle d st multiple requeue),
        .replied call (.threw thrown)])).adapter.unsettled = (reached id u).adapter.unsettled) ∧
    ¬∀ (id : String) (u : List Event) (call call' d n : Nat) (st : Settlement)
        (multiple requeue thrown : Value) (delivery : Delivery),
      Proper (u ++ refused call d st multiple requeue thrown ++
        [.issue call' (.settle d st multiple requeue)]) →
      (reached id u).calls (.issue call (.settle d st multiple requeue)) ≠ [] →
      (reached id (u ++ refused call d st multiple requeue
        thrown)).machine.channel.isOpen = true →
      ¬(reached id (u ++ refused call d st multiple requeue thrown)).Ending →
      (reached id (u ++ refused call d st multiple requeue
        thrown)).machine.channel.deliveries[d]? = some delivery →
      delivery.Awaits n →
      (reached id (u ++ refused call d st multiple requeue thrown)).calls
        (.issue call' (.settle d st multiple requeue)) ≠ [] := by
  have hcalls : (reached "c" receiving).calls
      (.issue 1 (.settle 0 .acknowledge .undefined .undefined)) =
        [.ack (Channel.messageOf 1) (.bool false)] := rfl
  have hasked : (reached "c" receiving).calls
      (.issue 1 (.settle 0 .acknowledge .undefined .undefined)) ≠ [] := by
    rw [hcalls]
    exact List.cons_ne_nil _ _
  constructor
  · intro h
    have hproper : Proper (receiving ++ [.issue 1 (.settle 0 .acknowledge .undefined .undefined)] ++
        [.replied 1 (.threw closingFault), .answered 1, .heard 1,
          .issue 2 (.settle 0 .acknowledge .undefined .undefined)]) := proper_refusing
    have hsame := h "c" receiving 1 0 .acknowledge .undefined .undefined closingFault
      hproper.of_append_left rfl (not_ending_of_outcomes rfl) hasked
    have hlength : 0 = 1 := congrArg List.length hsame
    exact nomatch hlength
  · intro h
    exact h "c" receiving 1 2 0 1 .acknowledge .undefined .undefined closingFault givenBack
      proper_refusing hasked rfl (not_ending_of_outcomes rfl) rfl ⟨rfl, rfl, rfl⟩ rfl

end Session

end Amqp
