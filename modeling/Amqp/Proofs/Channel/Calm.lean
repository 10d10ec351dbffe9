import Amqp.Proofs.Channel.Effects
import Amqp.Proofs.Channel.Settling

/-!
# What most events leave as it is

Only a message and the transport's answer touch the accounts of a channel that stays open. Whatever
else happens leaves the ledger and the deliveries' labels alone, and all calls that wait for the
transport go on waiting.
-/

namespace Amqp.Channel

/-- The transport has been asked for the call, and has not answered. -/
def Call.IsAsked (c : Call) : Prop := ∃ wasOpen, c.phase = .asked wasOpen

namespace Machine

variable {m m' m'' : Machine} {e : Event} {call : Nat} {c : Call}

/-- A call goes on waiting until the transport answers it. -/
theorem call?_step_of_isAsked (hcall : m.call? call = some c) (hasked : c.IsAsked)
    (hnew : e.NewFor m) (hanswer : ∀ o, e ≠ .answered call o) :
    (m.step e).1.call? call = some c := by
  obtain ⟨wasOpen, hphase⟩ := hasked
  by_cases he : e.call? = some call
  · cases e with
    | issue call' r =>
      obtain rfl : call' = call := Option.some.inj he
      exact absurd (mem_of_call? hcall).2 (hnew call' rfl c (mem_of_call? hcall).1)
    | answered call' o =>
      obtain rfl : call' = call := Option.some.inj he
      exact absurd rfl (hanswer o)
    | heard call' =>
      obtain rfl : call' = call := Option.some.inj he
      simp only [step, hcall, hear, hphase]
    | _ => cases he
  · rw [call?_step_of_ne he, hcall]

/-- A settlement of a waiting delivery claims it and asks the transport, if the channel is open. -/
theorem step_settle_of_awaits {d n : Nat} {s : Settlement} {multiple requeue : Value}
    {delivery : Delivery} (hd : m.channel.deliveries[d]? = some delivery)
    (hawaits : delivery.Awaits n) :
    m.step (.issue call (.settle d s multiple requeue)) =
      ((m.withChannel (m.claimed d s)).push (m.settleCall call d s multiple requeue n),
        if m.channel.isOpen then
          [.ask call (Request.settlePrimitive s n (multiple.ifDefined (.bool false))
            (requeue.ifDefined (.bool true)))]
        else [.await call]) :=
  issueSettle_of_awaits hd hawaits

/-- The transport is asked to settle the tag of a waiting delivery. -/
theorem asked?_step_settle {d n : Nat} {s : Settlement} {multiple requeue : Value}
    {delivery : Delivery} (hopen : m.channel.isOpen = true)
    (hd : m.channel.deliveries[d]? = some delivery) (hawaits : delivery.Awaits n)
    (hunique : (m.step (.issue call (.settle d s multiple requeue))).1.UniqueIds) :
    (m.step (.issue call (.settle d s multiple requeue))).1.asked? call =
      some (n, (multiple.ifDefined (.bool false)).isTruthy) := by
  have hcall : (m.step (.issue call (.settle d s multiple requeue))).1.call? call =
      some (m.settleCall call d s multiple requeue n) := by
    rw [hunique.call?_eq_some_iff, step_settle_of_awaits hd hawaits]
    exact ⟨mem_calls_push.mpr (.inr rfl), rfl⟩
  have hphase : (m.settleCall call d s multiple requeue n).phase = .asked true := by
    simp [settleCall, hopen]
  exact asked?_eq_some_iff.mpr ⟨_, d, s, _, _, true, hcall, rfl, hphase, rfl, rfl⟩

/-- What is asked for a call depends on that call only. -/
theorem asked?_congr (h : m'.call? call = m.call? call) : m'.asked? call = m.asked? call := by
  simp only [asked?, h]

/-- A call that the transport is asked to settle something for has been waiting before, unless it is
new. -/
theorem asked?_of_step {a : Nat × Bool} (h : (m.step e).1.asked? call = some a)
    (hissued : e.issued? ≠ some call) : m.asked? call = some a := by
  by_cases he : e.call? = some call
  · have hover {m' : Machine} (hnone : m'.call? call = none) : m'.asked? call ≠ some a := by
      simp [asked?, hnone]
    have hdecided {c : Call} {v : Verdict} (hid : c.id = call) :
        (m.decided c v).asked? call ≠ some a := by
      have hcall := call?_decided_self m c v
      rw [hid] at hcall
      simp [asked?, hcall]
    have hchange := step_transition m e
    generalize (m.step e).1 = m' at hchange h
    cases hchange with
    | idle | turned | arrived | lost => exact h
    | settledAlone | claimed | passedOn | closing | aborted => exact absurd he hissued
    | accepted =>
      rw [asked?_congr (call?_withChannel ..)] at h
      exact absurd h (hdecided (Option.some.inj he))
    | refused => exact absurd h (hdecided (Option.some.inj he))
    | closeFailed | closeDone | answered | restored | concluded =>
      obtain rfl := Option.some.inj he
      exact absurd h (hover (call?_drop_self _ _))
  · rwa [asked?_congr (call?_step_of_ne he)] at h

/-- Nothing is asked anew for a call, and no answer comes to it. -/
theorem asked?_step (hissued : e.issued? ≠ some call) (hanswer : ∀ o, e ≠ .answered call o)
    (hnew : e.NewFor m) : (m.step e).1.asked? call = m.asked? call := by
  cases h : m.asked? call with
  | some a =>
    obtain ⟨c, d, s, multiple, requeue, wasOpen, hcall, hrequest, hphase, htag, hall⟩ :=
      asked?_eq_some_iff.mp h
    exact asked?_eq_some_iff.mpr ⟨c, d, s, multiple, requeue, wasOpen,
      call?_step_of_isAsked hcall ⟨wasOpen, hphase⟩ hnew hanswer, hrequest, hphase, htag, hall⟩
  | none =>
    cases h' : (m.step e).1.asked? call with
    | none => rfl
    | some a => exact nomatch h.symm.trans (asked?_of_step h' hissued)

/-- What most events leave as it is, with `new` the number of a call that is issued. -/
structure Calm (new : Option Nat) (m m' : Machine) : Prop where
  opened : m'.channel.isOpen = true → m.channel.isOpen = true
  pending : m'.channel.isOpen = true → m'.channel.pending = m.channel.pending
  labels : m'.channel.labels = m.channel.labels
  call? : ∀ call c, m.call? call = some c → c.IsAsked → m'.call? call = some c
  asked? : ∀ call, new ≠ some call → m'.asked? call = m.asked? call

theorem Calm.refl (m : Machine) : Calm none m m :=
  ⟨fun h => h, fun _ => rfl, rfl, fun _ _ h _ => h, fun _ _ => rfl⟩

theorem Calm.trans (h : Calm none m m') (h' : Calm none m' m'') : Calm none m m'' where
  opened := fun hopen => h.opened (h'.opened hopen)
  pending := fun hopen => (h'.pending hopen).trans (h.pending (h'.opened hopen))
  labels := h'.labels.trans h.labels
  call? := fun call c hcall hasked => h'.call? call c (h.call? call c hcall hasked) hasked
  asked? := fun call hne => (h'.asked? call hne).trans (h.asked? call hne)

/-- Neither a message nor an answer: the accounts stay as they are. -/
theorem calm_step (hnew : e.NewFor m) (hlabel : e.label? = none)
    (hanswer : ∀ call o, e ≠ .answered call o) : Calm e.issued? m (m.step e).1 where
  opened := by
    intro hopen
    have hchange := step_transition m e
    generalize (m.step e).1 = m' at hchange hopen
    cases hchange with
    | accepted => exact absurd rfl (hanswer _ _)
    | aborted | closeDone | lost => exact nomatch hopen
    | _ => exact hopen
  pending := by
    intro hopen
    cases ledgerChange_step m e with
    | same h => exact h
    | ended hclosed => exact nomatch hopen.symm.trans hclosed
    | settled he => exact absurd he (hanswer _ _)
    | tracked hl => exact nomatch hlabel.symm.trans hl
  labels := by
    rcases labels_step m e with h | ⟨l, hl, _⟩
    · exact h
    · exact nomatch hlabel.symm.trans hl
  call? := fun call c hcall hasked => call?_step_of_isAsked hcall hasked hnew (hanswer call)
  asked? := fun call hne => asked?_step hne (hanswer call) hnew

end Machine

end Amqp.Channel
