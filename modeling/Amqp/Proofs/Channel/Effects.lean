import Amqp.Proofs.Channel.Run

/-!
# What a run does for one call

A step does something for the call that its event is about, and for no other call. So what a run
does for a call is what the events about it do: it is asked for once, and ends at most once.
-/

namespace Amqp.Channel

/-- The effects that are about a call. -/
def concerning (call : Nat) (effects : List Effect) : List Effect :=
  effects.filter fun f => f.call? == some call

@[simp] theorem concerning_append (call : Nat) (xs ys : List Effect) :
    concerning call (xs ++ ys) = concerning call xs ++ concerning call ys :=
  List.filter_append ..

@[simp] theorem concerning_log_cons (call : Nat) (entry : LogEntry) (effects : List Effect) :
    concerning call (.log entry :: effects) = concerning call effects := rfl

@[simp] theorem concerning_ask (call : Nat) (p : Primitive) :
    concerning call [.ask call p] = [.ask call p] := by
  simp [concerning, Effect.call?]

@[simp] theorem concerning_await (call : Nat) : concerning call [.await call] = [.await call] := by
  simp [concerning, Effect.call?]

@[simp] theorem concerning_finish (call : Nat) (a : Answer) :
    concerning call [.finish call a] = [.finish call a] := by
  simp [concerning, Effect.call?]

/-- Effects that are about nothing or about another call do not count. -/
theorem concerning_eq_nil_iff {call : Nat} {effects : List Effect} :
    concerning call effects = [] ↔ ∀ f ∈ effects, f.call? ≠ some call := by
  simp [concerning, List.filter_eq_nil_iff]

namespace Machine

variable {m : Machine} {e : Event} {call : Nat}

/-- Effects that are about no call but one. -/
def Only (call : Nat) (effects : List Effect) : Prop :=
  ∀ f ∈ effects, f.call? = none ∨ f.call? = some call

theorem only_nil (call : Nat) : Only call [] := fun _ hf => nomatch hf

theorem only_cons {f : Effect} {effects : List Effect} (hf : f.call? = none ∨ f.call? = some call)
    (h : Only call effects) : Only call (f :: effects) :=
  List.forall_mem_cons.mpr ⟨hf, h⟩

theorem only_finish (call : Nat) (a : Answer) : Only call [.finish call a] :=
  only_cons (.inr rfl) (only_nil call)

theorem only_await (call : Nat) : Only call [.await call] := only_cons (.inr rfl) (only_nil call)

theorem only_ask (call : Nat) (p : Primitive) : Only call [.ask call p] :=
  only_cons (.inr rfl) (only_nil call)

/-- The end of a failed call is about that call only. -/
theorem only_fail (m : Machine) (call : Nat) (e : Except Value OperationError) :
    Only call (m.fail call e).2 := by
  cases e with
  | ok e => exact only_cons (.inl rfl) (only_finish call _)
  | error thrown => exact only_finish call _

/-- A settlement that is issued is about its own call only. -/
theorem only_issueSettle (m : Machine) (call d : Nat) (s : Settlement) (multiple requeue : Value) :
    Only call (m.issueSettle call d s (multiple.ifDefined (.bool false))
      (requeue.ifDefined (.bool true))).2 := by
  cases hd : m.channel.deliveries[d]? with
  | none =>
    rw [issueSettle_of_missing hd]
    exact only_nil call
  | some delivery =>
    cases hclaim : delivery.claim s with
    | mk claim delivery' =>
      cases claim with
      | refused fault =>
        rw [issueSettle_of_refused hd hclaim]
        exact only_finish call _
      | settled =>
        rw [issueSettle_of_settled hd hclaim]
        exact only_finish call _
      | asks n =>
        rw [issueSettle_of_awaits hd (Delivery.claim_asks_iff.mp hclaim).1]
        cases m.channel.isOpen with
        | true => exact only_ask call _
        | false => exact only_await call

/-- What is issued is about its own call only. -/
theorem only_issue (m : Machine) (call : Nat) (r : Request) : Only call (m.issue call r).2 := by
  have hoperation (r : Request) (summary : String) :
      Only call (m.issueOperation call r summary).2 := by
    unfold issueOperation
    cases m.channel.isOpen with
    | false => exact only_finish call _
    | true =>
      cases r.primitive? with
      | none => exact only_nil call
      | some p => exact only_ask call p
  unfold issue
  cases r.summary m.channel.id with
  | error fault => exact only_finish call _
  | ok summary =>
    cases r with
    | close params | abort params => exact only_ask call _
    | declareExchange spec =>
      simp only [issueWorded]
      split
      · exact only_cons (.inl rfl) (only_finish call _)
      · exact hoperation _ _
    | settle d s multiple requeue =>
      exact only_issueSettle m call d s multiple requeue
    | _ => exact hoperation _ _

/-- What an answer of the transport brings about is about its own call only. -/
theorem only_answer (m : Machine) (c : Call) (o : Outcome) : Only c.id (m.answer c o).2 := by
  have hoperation : Only c.id (m.answerOperation c o).2 := by
    unfold answerOperation
    cases o with
    | threw thrown => exact only_fail m c.id _
    | replied reply =>
      cases hv : c.request.valueOf reply with
      | ok v =>
        simp only [hv]
        exact only_finish c.id _
      | error thrown =>
        simp only [hv]
        exact only_fail m c.id _
  unfold answer
  cases c.phase with
  | decided v => exact only_nil c.id
  | asked wasOpen =>
    cases c.request with
    | settle d s multiple requeue =>
      simp only
      cases verdictOf s c.tag o with
      | accepted =>
        rw [decide_accepted]
        exact only_await c.id
      | refused error => exact only_cons (.inl rfl) (only_await c.id)
      | broke thrown => exact only_await c.id
    | close params =>
      simp only [answerClose]
      cases o with
      | threw thrown => exact only_fail _ c.id _
      | replied reply =>
        cases wasOpen with
        | true => exact only_cons (.inl rfl) (only_finish c.id _)
        | false => exact only_finish c.id _
    | _ => exact hoperation

/-- What a delivery hears is about its own call only. -/
theorem only_hear (m : Machine) (c : Call) : Only c.id (m.hear c).2 := by
  unfold hear
  split
  · exact only_finish c.id _
  · exact only_finish c.id _
  · exact only_finish c.id _
  · exact only_nil c.id

/-- Effects about one call are not about another one. -/
theorem Only.concerning_eq_nil {call' : Nat} {effects : List Effect} (h : Only call' effects)
    (hne : call' ≠ call) : concerning call effects = [] := by
  rw [concerning_eq_nil_iff]
  intro f hf hcall
  rcases h f hf with hnone | hsome
  · exact nomatch hnone.symm.trans hcall
  · exact hne (Option.some.inj (hsome.symm.trans hcall))

/-- Log entries are about no call. -/
theorem concerning_map_log (call : Nat) (entries : List LogEntry) :
    concerning call (entries.map .log) = [] := by
  rw [concerning_eq_nil_iff]
  intro f hf
  obtain ⟨entry, _, rfl⟩ := List.mem_map.mp hf
  exact nofun

/-- A step does something only for the call that its event is about. -/
theorem concerning_step_of_ne (h : e.call? ≠ some call) : concerning call (m.step e).2 = [] := by
  cases e with
  | issue call' r =>
    exact (only_issue m call' r).concerning_eq_nil fun he => h (congrArg some he)
  | answered call' o =>
    have hne : call' ≠ call := fun he => h (congrArg some he)
    simp only [step]
    cases hcall : m.call? call' with
    | none => rfl
    | some c =>
      obtain rfl := (mem_of_call? hcall).2
      exact (only_answer m c o).concerning_eq_nil hne
  | heard call' =>
    have hne : call' ≠ call := fun he => h (congrArg some he)
    simp only [step]
    cases hcall : m.call? call' with
    | none => rfl
    | some c =>
      obtain rfl := (mem_of_call? hcall).2
      exact (only_hear m c).concerning_eq_nil hne
  | lost error => exact concerning_map_log call _
  | arrived consumer mode message =>
    simp only [step, arrive]
    split <;> rfl
  | turn =>
    simp only [step]
    cases m.turns <;> rfl
  | handlerFailed d thrown =>
    simp only [step]
    cases m.channel.deliveries[d]? with
    | none => rfl
    | some delivery => exact concerning_map_log call _
  | cancelled consumerTag queue =>
    simp only [step]
    cases cancelledEntry consumerTag queue <;> rfl

/-- A run without events about a call leaves it as it is and does nothing for it. -/
theorem run_of_ne {events : List Event} (h : ∀ e ∈ events, e.call? ≠ some call) :
    (m.run events).1.call? call = m.call? call ∧ concerning call (m.run events).2 = [] := by
  induction events generalizing m with
  | nil => exact ⟨rfl, rfl⟩
  | cons e events ih =>
    obtain ⟨he, hrest⟩ := List.forall_mem_cons.mp h
    obtain ⟨hcall, heffects⟩ := ih (m := (m.step e).1) hrest
    simp only [run]
    refine ⟨hcall.trans (call?_step_of_ne he), ?_⟩
    rw [concerning_append, concerning_step_of_ne he, heffects, List.append_nil]

/-- Nothing more is done for a call that is over. -/
theorem run_of_over {events : List Event} (hover : m.call? call = none)
    (hnew : call ∉ events.filterMap Event.issued?) : concerning call (m.run events).2 = [] := by
  induction events generalizing m with
  | nil => rfl
  | cons e events ih =>
    rw [List.filterMap_cons] at hnew
    have hstep : (m.step e).1.call? call = none ∧ concerning call (m.step e).2 = [] := by
      by_cases he : e.call? = some call
      · cases e with
        | issue call' r =>
          obtain rfl : call' = call := Option.some.inj he
          exact absurd (List.mem_cons_self ..) hnew
        | answered call' o =>
          obtain rfl : call' = call := Option.some.inj he
          simp only [step, hover]
          exact ⟨trivial, rfl⟩
        | heard call' =>
          obtain rfl : call' = call := Option.some.inj he
          simp only [step, hover]
          exact ⟨trivial, rfl⟩
        | _ => cases he
      · exact ⟨(call?_step_of_ne he).trans hover, concerning_step_of_ne he⟩
    have hrest : call ∉ events.filterMap Event.issued? := by
      cases hissued : e.issued? with
      | none => simpa only [hissued] using hnew
      | some call' =>
        simp only [hissued] at hnew
        exact fun hmem => hnew (List.mem_cons_of_mem _ hmem)
    simp only [run]
    rw [concerning_append, hstep.2, ih hstep.1 hrest, List.append_nil]

/-- A call that is over is not in flight. -/
theorem call?_drop_self (m : Machine) (call : Nat) : (m.drop call).call? call = none := by
  rw [call?, List.find?_eq_none]
  intro c hc
  have hne := (mem_calls_drop.mp hc).2
  simpa using hne

/-- A call that is decided is in flight as such. -/
theorem call?_decided_self (m : Machine) (c : Call) (v : Verdict) :
    (m.decided c v).call? c.id = some { c with phase := .decided v } := by
  have hover := call?_drop_self m c.id
  rw [call?] at hover
  rw [decided, call?, calls_push, List.find?_append, hover]
  simp

/-- A call that comes under a new number is in flight under it. -/
theorem call?_push_self {c : Call} (hnew : m.call? c.id = none) :
    (m.push c).call? c.id = some c := by
  rw [call?] at hnew
  rw [call?, calls_push, List.find?_append, hnew]
  simp

end Machine

end Amqp.Channel
