import Amqp.Proofs.Channel.Run

/-!
# What a channel asks of the transport

Only a request that has just been issued makes a channel ask the transport, and then for one
primitive. `Asks` lists the two ways: an operation is passed on, by an open channel or because it
ends the channel, and an open channel settles a delivery that waits. Only a turn starts a handler.
-/

namespace Amqp.Channel

/-- The primitive ends the transport's channel. -/
def Primitive.IsEnd : Primitive → Prop
  | .close _ => True
  | .abort _ => True
  | _ => False

/-- The event makes the machine ask for the primitive, on behalf of the call. -/
inductive Asks (m : Machine) : Event → Call → Primitive → Prop where
  /-- An operation is passed on. -/
  | operation {call : Nat} {r : Request} {summary : String} {p : Primitive}
      (hp : r.primitive? = some p) (hopen : m.channel.isOpen = true ∨ p.IsEnd) :
      Asks m (.issue call r) (m.passOn call r summary) p
  /-- A delivery that waits is settled. -/
  | settlement {call d n : Nat} {s : Settlement} {multiple requeue : Value} {delivery : Delivery}
      (hopen : m.channel.isOpen = true) (hd : m.channel.deliveries[d]? = some delivery)
      (hawaits : delivery.Awaits n) :
      Asks m (.issue call (.settle d s multiple requeue))
        (m.settleCall call d s multiple requeue n)
        (Request.settlePrimitive s n (multiple.ifDefined (.bool false))
          (requeue.ifDefined (.bool true)))

/-- The effect only tells something: it neither asks the transport nor starts a handler. -/
def Effect.isReport : Effect → Bool
  | .ask .. => false
  | .start _ => false
  | _ => true

/-- Nothing is asked, and no handler starts. -/
def Quiet (effects : List Effect) : Prop := ∀ f ∈ effects, f.isReport = true

theorem quiet_nil : Quiet [] := fun _ h => nomatch h

theorem Quiet.cons {f : Effect} {effects : List Effect} (h : Quiet effects)
    (hf : f.isReport = true) : Quiet (f :: effects) :=
  List.forall_mem_cons.mpr ⟨hf, h⟩

theorem Quiet.not_ask {effects : List Effect} (h : Quiet effects) (call : Nat) (p : Primitive) :
    .ask call p ∉ effects :=
  fun hmem => nomatch h _ hmem

theorem Quiet.not_start {effects : List Effect} (h : Quiet effects) (t : Turn) :
    .start t ∉ effects :=
  fun hmem => nomatch h _ hmem

theorem quiet_map_log (entries : List LogEntry) : Quiet (entries.map .log) := by
  intro f hf
  obtain ⟨entry, _, rfl⟩ := List.mem_map.mp hf
  rfl

theorem quiet_finish (call : Nat) (a : Answer) : Quiet [.finish call a] := quiet_nil.cons rfl

theorem quiet_await (call : Nat) : Quiet [.await call] := quiet_nil.cons rfl

namespace Machine

variable {m : Machine} {call : Nat}

/-- Nothing is asked when a call fails. -/
theorem quiet_fail (m : Machine) (call : Nat) (e : Except Value OperationError) :
    Quiet (m.fail call e).2 := by
  cases e with
  | ok e => exact (quiet_finish call _).cons rfl
  | error thrown => exact quiet_finish call _

/-- Nothing is asked when the transport answers. -/
theorem quiet_answer (m : Machine) (c : Call) (o : Outcome) : Quiet (m.answer c o).2 := by
  have hoperation : Quiet (m.answerOperation c o).2 := by
    unfold answerOperation
    cases o with
    | threw thrown => exact quiet_fail m c.id _
    | replied reply =>
      cases hv : c.request.valueOf reply with
      | ok v =>
        simp only [hv]
        exact quiet_finish c.id _
      | error thrown =>
        simp only [hv]
        exact quiet_fail m c.id _
  unfold answer
  cases c.phase with
  | decided v => exact quiet_nil
  | asked wasOpen =>
    cases c.request with
    | settle d s multiple requeue =>
      simp only
      cases verdictOf s c.tag o with
      | accepted =>
        rw [decide_accepted]
        exact quiet_await c.id
      | refused error => exact (quiet_await c.id).cons rfl
      | broke thrown => exact quiet_await c.id
    | close params =>
      simp only [answerClose]
      cases o with
      | threw thrown => exact quiet_fail _ c.id _
      | replied reply =>
        cases wasOpen with
        | true => exact (quiet_finish c.id _).cons rfl
        | false => exact quiet_finish c.id _
    | _ => exact hoperation

/-- Nothing is asked when a delivery hears of its settlement. -/
theorem quiet_hear (m : Machine) (c : Call) : Quiet (m.hear c).2 := by
  unfold hear
  split
  · exact quiet_finish c.id _
  · exact quiet_finish c.id _
  · exact quiet_finish c.id _
  · exact quiet_nil

/-- Only a request that is issued makes a channel ask, and only a turn starts a handler. -/
theorem quiet_step {e : Event} (hissued : e.issued? = none) (hturn : e ≠ .turn) :
    Quiet (m.step e).2 := by
  cases e with
  | issue call r => exact nomatch hissued
  | turn => exact absurd rfl hturn
  | answered call o =>
    simp only [step]
    cases m.call? call with
    | none => exact quiet_nil
    | some c => exact quiet_answer m c o
  | heard call =>
    simp only [step]
    cases m.call? call with
    | none => exact quiet_nil
    | some c => exact quiet_hear m c
  | lost error => exact quiet_map_log _
  | arrived consumer mode message =>
    simp only [step, arrive]
    split <;> exact quiet_nil
  | handlerFailed d thrown =>
    simp only [step]
    cases m.channel.deliveries[d]? with
    | none => exact quiet_nil
    | some delivery => exact quiet_map_log _
  | cancelled consumerTag queue =>
    simp only [step]
    cases cancelledEntry consumerTag queue with
    | ok entry => exact quiet_nil.cons rfl
    | error fault => exact quiet_nil.cons rfl

/-- A turn starts the first handler that waits, if there is one. -/
theorem effects_turn (m : Machine) : (m.step .turn).2 = (m.turns.head?.map .start).toList := by
  simp only [step]
  cases m.turns <;> rfl

/-- What comes of a request that is issued: nothing is asked, or one primitive on behalf of a new
call. -/
def AsksOnce (m : Machine) (e : Event) (after : Machine × List Effect) : Prop :=
  Quiet after.2 ∨ ∃ c p, Asks m e c p ∧ e.issued? = some c.id ∧
    after.1.calls = m.calls ++ [c] ∧ after.2 = [.ask c.id p]

/-- An operation that is issued asks once at most. -/
theorem asksOnce_issueOperation (m : Machine) (call : Nat) (r : Request) (summary : String) :
    m.AsksOnce (.issue call r) (m.issueOperation call r summary) := by
  unfold issueOperation
  cases hopen : m.channel.isOpen with
  | false => exact .inl (quiet_finish call _)
  | true =>
    cases hp : r.primitive? with
    | none => exact .inl quiet_nil
    | some p => exact .inr ⟨m.passOn call r summary, p, .operation hp (.inl hopen), rfl, rfl, rfl⟩

/-- A settlement that is issued asks once at most. -/
theorem asksOnce_issueSettle (m : Machine) (call d : Nat) (s : Settlement)
    (multiple requeue : Value) :
    m.AsksOnce (.issue call (.settle d s multiple requeue))
      (m.issueSettle call d s (multiple.ifDefined (.bool false))
        (requeue.ifDefined (.bool true))) := by
  cases hd : m.channel.deliveries[d]? with
  | none =>
    rw [issueSettle_of_missing hd]
    exact .inl quiet_nil
  | some delivery =>
    cases hclaim : delivery.claim s with
    | mk claim delivery' =>
      cases claim with
      | refused fault =>
        rw [issueSettle_of_refused hd hclaim]
        exact .inl (quiet_finish call _)
      | settled =>
        rw [issueSettle_of_settled hd hclaim]
        exact .inl (quiet_finish call _)
      | asks n =>
        obtain ⟨hawaits, _⟩ := Delivery.claim_asks_iff.mp hclaim
        rw [issueSettle_of_awaits hd hawaits]
        cases hopen : m.channel.isOpen with
        | false => exact .inl (quiet_await call)
        | true => exact .inr ⟨_, _, .settlement hopen hd hawaits, rfl, rfl, rfl⟩

/-- A request that is issued asks once at most. -/
theorem asksOnce_step (m : Machine) (call : Nat) (r : Request) :
    m.AsksOnce (.issue call r) (m.step (.issue call r)) := by
  simp only [step, issue]
  cases r.summary m.channel.id with
  | error fault => exact .inl (quiet_finish call _)
  | ok summary =>
    cases r with
    | close params =>
      exact .inr ⟨m.passOn call (.close params) summary, _, .operation rfl (.inr trivial), rfl, rfl,
        rfl⟩
    | abort params =>
      exact .inr ⟨m.passOn call (.abort params) summary, _, .operation rfl (.inr trivial), rfl, rfl,
        rfl⟩
    | declareExchange spec =>
      simp only [issueWorded]
      split
      · exact .inl ((quiet_finish call _).cons rfl)
      · exact asksOnce_issueOperation m call _ summary
    | settle d s multiple requeue => exact asksOnce_issueSettle m call d s multiple requeue
    | _ => exact asksOnce_issueOperation m call _ summary

/-- Whatever a step asks for, it asks for on behalf of a call that is new, and for nothing else. -/
theorem asks_of_mem_step {e : Event} {p : Primitive} (h : .ask call p ∈ (m.step e).2) :
    ∃ c, Asks m e c p ∧ c.id = call ∧ e.issued? = some call ∧ (m.step e).1.calls = m.calls ++ [c] ∧
      (m.step e).2 = [.ask call p] := by
  cases e with
  | issue call' r =>
    rcases asksOnce_step m call' r with hquiet | ⟨c, p', hasks, hissued, hcalls, heffects⟩
    · exact absurd h (hquiet.not_ask call p)
    · rw [heffects, List.mem_singleton] at h
      cases h
      exact ⟨c, hasks, rfl, hissued, hcalls, heffects⟩
  | turn =>
    rw [effects_turn] at h
    cases hhead : m.turns.head? <;> simp [hhead] at h
  | _ => exact absurd h ((quiet_step rfl (by nofun)).not_ask call p)

/-- A handler that starts with a step has been the first one to wait. -/
theorem head_of_start_mem_step {e : Event} {t : Turn} (h : .start t ∈ (m.step e).2) :
    e = .turn ∧ m.turns.head? = some t := by
  cases e with
  | issue call r =>
    rcases asksOnce_step m call r with hquiet | ⟨_, _, _, _, _, heffects⟩
    · exact absurd h (hquiet.not_start t)
    · rw [heffects, List.mem_singleton] at h
      exact nomatch h
  | turn =>
    rw [effects_turn] at h
    cases hhead : m.turns.head? with
    | none => simp [hhead] at h
    | some t' =>
      rw [hhead, Option.map_some, Option.toList_some, List.mem_singleton] at h
      cases h
      exact ⟨rfl, rfl⟩
  | _ => exact absurd h ((quiet_step rfl (by nofun)).not_start t)

end Machine

end Amqp.Channel
