import Amqp.Proofs.Channel.Effects
import Amqp.Proofs.Channel.Settling
import Amqp.Proofs.Error.Description

/-!
# What a call ends with

An open channel passes a request on as one primitive, and ends the call with what it makes of the
transport's outcome: the value, or a failure of the request's own kind. A failure keeps what was
thrown as its cause, as long as that can be described; what cannot be described breaks the call.
-/

namespace Amqp.Channel

/-- What a caller gets for a failure. -/
def Answer.ofFailure : Except Value OperationError → Answer
  | .ok e => .failed e
  | .error thrown => .threw thrown

/-- The caller gets the value, or a failure of that kind with the thrown value as its cause. -/
def Answer.Keeps (a : Answer) (kind : OperationKind) : Except Value Value → Prop
  | .ok v => a = .ok v
  | .error thrown => ∃ e, a = .failed e ∧ e.kind = kind ∧ e.cause = thrown

/-- The answer to a failure keeps what was thrown exactly if that can be described. -/
theorem Answer.keeps_ofFailure_iff {kind : OperationKind} {thrown : Value}
    {failure : Except Value OperationError} (h : Fails kind thrown failure) :
    (Answer.ofFailure failure).Keeps kind (.error thrown) ↔ ¬thrown.HidesText := by
  cases h with
  | described e htext hkind hcause => exact iff_of_true ⟨e, rfl, hkind, hcause⟩ htext
  | broken htext => exact iff_of_false (fun ⟨_, he, _⟩ => nomatch he) (not_not_intro htext)

/-- What a verdict gives the caller of a settlement. -/
def Verdict.answer : Verdict → Answer
  | .accepted => .ok .undefined
  | .refused e => .failed e
  | .broke thrown => .threw thrown

namespace Request

/-- The arguments that the wording of a failure names have the types that they are declared with. -/
def Typed : Request → Prop
  | declareQueue spec => spec = .undefined ∨ ∃ name, spec.read "name" = .ok (.text name)
  | declareExchange spec => ∃ name, spec.read "name" = .ok (.text name)
  | bindQueue queue exchange _ => (∃ s, queue = .text s) ∧ ∃ s, exchange = .text s
  | publish exchange routingKey _ _ => (∃ s, exchange = .text s) ∧ ∃ s, routingKey = .text s
  | deleteQueue queue => ∃ s, queue = .text s
  | deleteExchange exchange => ∃ s, exchange = .text s
  | purgeQueue queue => ∃ s, queue = .text s
  | prefetch count _ => ∃ n, count = .number n
  | consume queue options =>
    (∃ s, queue = .text s) ∧ (options = .undefined ∨ ∃ fields, options = .table fields)
  | cancel consumerTag => ∃ s, consumerTag = .text s
  | close _ | abort _ | settle .. => True

/-- A request with arguments of the declared types can be worded. -/
theorem Typed.exists_summary {r : Request} (h : r.Typed) (id : String) :
    ∃ summary, r.summary id = .ok summary := by
  cases r with
  | close params | abort params | settle => exact ⟨_, rfl⟩
  | declareQueue spec =>
    rcases h with rfl | ⟨name, hname⟩
    · exact ⟨_, rfl⟩
    · simp only [summary, queueLabel, Value.field, hname]
      split <;> exact ⟨_, rfl⟩
  | declareExchange spec =>
    obtain ⟨name, hname⟩ := h
    simp only [summary, hname]
    exact ⟨_, rfl⟩
  | bindQueue | publish =>
    obtain ⟨⟨s, rfl⟩, t, rfl⟩ := h
    exact ⟨_, rfl⟩
  | deleteQueue | deleteExchange | purgeQueue | cancel =>
    obtain ⟨s, rfl⟩ := h
    exact ⟨_, rfl⟩
  | prefetch =>
    obtain ⟨n, rfl⟩ := h
    exact ⟨_, rfl⟩
  | consume =>
    obtain ⟨⟨s, rfl⟩, rfl | ⟨fields, rfl⟩⟩ := h
    · exact ⟨_, rfl⟩
    · exact ⟨_, rfl⟩

/-- The request declares an exchange that belongs to the broker. -/
def IsReserved : Request → Prop
  | declareExchange spec => isReservedExchange (spec.field "name") = true
  | _ => False

/-- What a request makes of the transport's outcome: a value, or the value that was thrown. A reply
that is not well formed throws when it is read. -/
def conclude (r : Request) : Outcome → Except Value Value
  | .threw thrown => .error thrown
  | .replied reply =>
    match r with
    | settle .. => .ok .undefined
    | r => r.valueOf reply

/-- What a request fails on, if it fails, can be described. -/
def Describes (r : Request) (o : Outcome) : Prop :=
  ∀ thrown, r.conclude o = .error thrown → ¬thrown.HidesText

/-- The caller gets what the request makes of the outcome: the value, or a failure of the request's
own kind. -/
def Concludes (r : Request) (o : Outcome) (a : Answer) : Prop :=
  match r.conclude o with
  | .ok v => a = .ok v
  | .error thrown => ∃ failure, Fails r.kind thrown failure ∧ a = .ofFailure failure

/-- The caller is told what happened exactly if it can be described. -/
theorem Concludes.keeps_iff {r : Request} {o : Outcome} {a : Answer} (h : r.Concludes o a) :
    a.Keeps r.kind (r.conclude o) ↔ r.Describes o := by
  unfold Concludes at h
  unfold Describes
  cases hconclude : r.conclude o with
  | ok v =>
    rw [hconclude] at h
    exact iff_of_true h fun _ hthrown => nomatch hthrown
  | error thrown =>
    rw [hconclude] at h
    obtain ⟨failure, hfails, rfl⟩ := h
    rw [Answer.keeps_ofFailure_iff hfails]
    constructor
    · rintro htext thrown' hthrown
      cases hthrown
      exact htext
    · exact fun htext => htext thrown rfl

end Request

/-- An exchange that belongs to the broker is warned about, and no other one. -/
theorem reservedExchangeWarning?_isSome (name : Value) :
    (reservedExchangeWarning? name).isSome = isReservedExchange name := by
  cases name with
  | text s =>
    by_cases hdefault : s = defaultExchange
    · subst hdefault
      rfl
    · cases hreserved : isReservedExchange (.text s) <;>
        simp [reservedExchangeWarning?, hdefault, hreserved]
  | _ => rfl

namespace Machine

variable {m : Machine} {call : Nat} {r : Request} {c : Call}

/-- The end of a failed call answers it, and the call is over. -/
theorem concerning_fail (m : Machine) (call : Nat) (failure : Except Value OperationError) :
    concerning call (m.fail call failure).2 = [.finish call (.ofFailure failure)] := by
  cases failure with
  | ok e => simp [fail, Answer.ofFailure]
  | error thrown => simp [fail, finish, Answer.ofFailure]

/-- An open channel passes a request on as one primitive. -/
theorem step_issue_of_open (hopen : m.channel.isOpen = true) (htyped : r.Typed)
    (hsettle : r.delivery? = none) (hreserved : ¬r.IsReserved) (hnew : m.call? call = none) :
    ∃ p summary, r.primitive? = some p ∧ (m.step (.issue call r)).2 = [.ask call p] ∧
      (m.step (.issue call r)).1.call? call = some (m.passOn call r summary) := by
  obtain ⟨summary, hsummary⟩ := htyped.exists_summary m.channel.id
  have hpush : (m.push (m.passOn call r summary)).call? call = some (m.passOn call r summary) :=
    call?_push_self (c := m.passOn call r summary) hnew
  have hoperation {p : Primitive} (hp : r.primitive? = some p) :
      m.issueOperation call r summary =
        (m.push (m.passOn call r summary), [.ask call p]) := by
    simp only [issueOperation, hopen, ite_true, hp]
    rfl
  simp only [step, issue, hsummary]
  cases r with
  | settle => cases hsettle
  | close params | abort params => exact ⟨_, summary, rfl, rfl, hpush⟩
  | declareExchange spec =>
    have hwarning : reservedExchangeWarning? (spec.field "name") = none := by
      rw [← Option.not_isSome_iff_eq_none, reservedExchangeWarning?_isSome]
      exact hreserved
    simp only [issueWorded, hopen, hwarning, hoperation rfl]
    exact ⟨_, summary, rfl, rfl, hpush⟩
  | _ =>
    simp only [issueWorded, hoperation rfl]
    exact ⟨_, summary, rfl, rfl, hpush⟩

/-- An open channel does not pass on the declaration of a reserved exchange. -/
theorem step_issue_of_reserved (hopen : m.channel.isOpen = true) (htyped : r.Typed)
    (hreserved : r.IsReserved) (call : Nat) :
    (m.step (.issue call r)).1 = m ∧
      concerning call (m.step (.issue call r)).2 = [.finish call (.ok .undefined)] := by
  obtain ⟨summary, hsummary⟩ := htyped.exists_summary m.channel.id
  cases r with
  | declareExchange spec =>
    have hwarning : (reservedExchangeWarning? (spec.field "name")).isSome = true := by
      rw [reservedExchangeWarning?_isSome]
      exact hreserved
    obtain ⟨warning, hwarning⟩ := Option.isSome_iff_exists.mp hwarning
    simp only [step, issue, hsummary, issueWorded, hopen, hwarning]
    exact ⟨trivial, concerning_finish ..⟩
  | _ => exact hreserved.elim

/-- A call that fails on a thrown value is over, and its caller gets the failure. -/
theorem concludes_fail {m₀ : Machine} {o : Outcome} {thrown : Value} {summary : String}
    (ho : c.request.conclude o = .error thrown) :
    (m₀.fail c.id (OperationError.ofThrown c.request.kind summary thrown)).1.call? c.id = none ∧
      ∃ a, c.request.Concludes o a ∧
        concerning c.id (m₀.fail c.id (OperationError.ofThrown c.request.kind summary thrown)).2 =
          [.finish c.id a] := by
  rw [fail_fst]
  refine ⟨call?_drop_self m₀ c.id, _, ?_, concerning_fail ..⟩
  simp only [Request.Concludes, ho]
  exact ⟨_, fails_ofThrown .., rfl⟩

/-- The transport's outcome ends a call that was passed on, with what the request makes of it. -/
theorem step_answered_of_passedOn {wasOpen : Bool} (hcall : m.call? call = some c)
    (hsettle : c.request.delivery? = none) (hphase : c.phase = .asked wasOpen) (o : Outcome) :
    (m.step (.answered call o)).1.call? call = none ∧
      ∃ a, c.request.Concludes o a ∧
        concerning call (m.step (.answered call o)).2 = [.finish call a] := by
  obtain rfl := (mem_of_call? hcall).2
  have hoperation (hconclude : ∀ reply, c.request.conclude (.replied reply) =
      c.request.valueOf reply) :
      (m.answerOperation c o).1.call? c.id = none ∧
        ∃ a, c.request.Concludes o a ∧
          concerning c.id (m.answerOperation c o).2 = [.finish c.id a] := by
    unfold answerOperation
    cases o with
    | threw thrown => exact concludes_fail rfl
    | replied reply =>
      cases hv : c.request.valueOf reply with
      | error thrown =>
        simp only [hv]
        exact concludes_fail ((hconclude reply).trans hv)
      | ok v =>
        simp only [hv]
        refine ⟨call?_drop_self m c.id, .ok v, ?_, concerning_finish ..⟩
        simp only [Request.Concludes, hconclude, hv]
  cases hrequest : c.request with
  | settle => exact nomatch hrequest ▸ hsettle
  | close params =>
    have hstep : m.step (.answered c.id o) = m.answerClose c wasOpen o := by
      simp only [step, hcall, answer, hphase, hrequest]
    have hkind : c.request.kind = .channelClose := by
      rw [hrequest]
      rfl
    rw [hstep, ← hrequest]
    cases o with
    | threw thrown =>
      simp only [answerClose, ← hkind]
      exact concludes_fail rfl
    | replied reply =>
      refine ⟨call?_drop_self _ c.id, .ok .undefined, ?_, ?_⟩
      · rw [hrequest]
        rfl
      · cases wasOpen <;> simp [answerClose]
  | _ =>
    have hstep : m.step (.answered c.id o) = m.answerOperation c o := by
      simp only [step, hcall, answer, hphase, hrequest]
    rw [hstep, ← hrequest]
    exact hoperation fun reply => by rw [hrequest]; rfl

variable {d n : Nat} {s : Settlement} {multiple requeue : Value}

/-- A thrown value is the reason why a settlement is not accepted. -/
theorem concludes_verdictOf (thrown : Value) :
    (Request.settle d s multiple requeue).Concludes (.threw thrown)
      (verdictOf s n (.threw thrown)).answer := by
  refine ⟨_, fails_ofThrown .acknowledgement (Request.settleSummary s n) thrown, ?_⟩
  simp only [verdictOf]
  cases OperationError.ofThrown .acknowledgement (Request.settleSummary s n) thrown <;> rfl

/-- A settlement that fails on a thrown value is refused, or broken if the value hides its text. -/
theorem verdict_of_threw {v : Verdict} {thrown : Value}
    (h : (Request.settle d s multiple requeue).Concludes (.threw thrown) v.answer) :
    (thrown.HidesText ∧ v = .broke noTextFault) ∨ (¬thrown.HidesText ∧ ∃ e, v = .refused e) := by
  obtain ⟨failure, hfails, hanswer⟩ := h
  cases hfails with
  | described e htext =>
    cases v with
    | refused e' => exact .inr ⟨htext, e', rfl⟩
    | accepted | broke => exact nomatch hanswer
  | broken htext =>
    cases v with
    | broke t =>
      cases hanswer
      exact .inl ⟨htext, rfl⟩
    | accepted | refused => exact nomatch hanswer

/-- The transport's outcome decides a settlement, and a thrown one leaves the channel as it is. -/
theorem step_answered_of_settle {wasOpen : Bool} (hcall : m.call? call = some c)
    (hrequest : c.request = .settle d s multiple requeue) (hphase : c.phase = .asked wasOpen)
    (hfault : (m.channel.release c.tag s multiple.isTruthy).2 = none) (o : Outcome) :
    ∃ v, c.request.Concludes o v.answer ∧
      (m.step (.answered call o)).1.call? call = some { c with phase := .decided v } ∧
      concerning call (m.step (.answered call o)).2 = [.await call] ∧
      ∀ thrown, o = .threw thrown → (m.step (.answered call o)).1.channel = m.channel := by
  obtain rfl := (mem_of_call? hcall).2
  cases o with
  | replied reply =>
    rw [step_accepted hcall hrequest hphase hfault reply]
    refine ⟨.accepted, ?_, call?_decided_self m c _, concerning_await .., ?_⟩
    · rw [hrequest]
      rfl
    · exact fun thrown ho => nomatch ho
  | threw thrown =>
    have hstep : m.step (.answered c.id (.threw thrown)) =
        m.decide c s multiple.isTruthy (verdictOf s c.tag (.threw thrown)) := by
      simp only [step, hcall, answer, hphase, hrequest]
    have hne := verdictOf_threw_ne s c.tag thrown
    rw [hstep, decide_fst_of_ne m c s _ hne]
    refine ⟨_, ?_, call?_decided_self m c _, ?_, fun _ _ => rfl⟩
    · rw [hrequest]
      exact concludes_verdictOf thrown
    · cases hv : verdictOf s c.tag (.threw thrown) with
      | accepted => exact absurd hv hne
      | refused e => simp [decide]
      | broke thrown => simp [decide]

/-- A settlement is over when its delivery hears of the verdict. -/
theorem step_heard_of_decided {v : Verdict} (hcall : m.call? call = some c)
    (hrequest : c.request = .settle d s multiple requeue) (hphase : c.phase = .decided v) :
    (m.step (.heard call)).1.call? call = none ∧
      concerning call (m.step (.heard call)).2 = [.finish call v.answer] := by
  obtain rfl := (mem_of_call? hcall).2
  cases v <;> simp only [step, hcall, hear, hphase, hrequest] <;>
    exact ⟨call?_drop_self _ c.id, by simp [finish, Verdict.answer]⟩

end Machine

end Amqp.Channel
