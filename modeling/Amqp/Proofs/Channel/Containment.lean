import Amqp.Proofs.Channel.Answer
import Amqp.Proofs.Channel.Closing

/-!
# What becomes of a failure beneath

Whatever else goes on, an operation of an open channel asks the transport once and ends once. What
is thrown beneath comes back as a failure of the operation's own kind, exactly if it can be
described; and only then a settlement that fails gives its delivery back.
-/

namespace Amqp.Channel

namespace Machine

variable {m : Machine} {call : Nat} {r : Request} {c : Call} {d n : Nat} {s : Settlement}
  {multiple requeue : Value}

/-- What a run does for a call, event by event. -/
theorem concerning_run_cons (m : Machine) (e : Event) (events : List Event) (call : Nat) :
    concerning call (m.run (e :: events)).2 =
      concerning call (m.step e).2 ++ concerning call ((m.step e).1.run events).2 :=
  concerning_append ..

/-- What a run does for a call that its first part is not about. -/
theorem concerning_run_append_of_ne {mid : List Event} (hmid : ∀ e ∈ mid, e.call? ≠ some call)
    (m : Machine) (events : List Event) :
    concerning call (m.run (mid ++ events)).2 = concerning call ((m.run mid).1.run events).2 := by
  rw [run_append, concerning_append, (run_of_ne hmid).2, List.nil_append]

/-- A request that an open channel passes on is asked for once, and ends once. -/
theorem effects_of_passedOn {o : Outcome} {mid after : List Event}
    (hopen : m.channel.isOpen = true) (htyped : r.Typed) (hsettle : r.delivery? = none)
    (hreserved : ¬r.IsReserved) (hnew : m.call? call = none)
    (hmid : ∀ e ∈ mid, e.call? ≠ some call) (hafter : call ∉ after.filterMap Event.issued?) :
    ∃ p a, r.primitive? = some p ∧ r.Concludes o a ∧
      concerning call (m.run (.issue call r :: (mid ++ .answered call o :: after))).2 =
        [.ask call p, .finish call a] := by
  obtain ⟨p, summary, hp, hasked, hcall⟩ :=
    step_issue_of_open hopen htyped hsettle hreserved hnew
  rw [← (run_of_ne hmid).1] at hcall
  obtain ⟨hover, a, hconcludes, hfinish⟩ :=
    step_answered_of_passedOn hcall hsettle rfl o
  refine ⟨p, a, hp, hconcludes, ?_⟩
  have hask : concerning call (m.step (.issue call r)).2 = [.ask call p] := by
    simp [hasked, concerning, Effect.call?]
  rw [concerning_run_cons, concerning_run_append_of_ne hmid, concerning_run_cons, hask]
  rw [hfinish, run_of_over hover hafter]
  rfl

/-- The ledger has the delivery under the tag, and none of the events takes its place. -/
def Placed (m : Machine) (d : Nat) (events : List Event) (t : Tag) : Prop :=
  (t, d) ∈ m.channel.pending ∧ ∀ e ∈ events, ∀ l, e.label? = some l → t.same l.1.tag = false

/-- The call is the only settlement in flight, its delivery is in the state that it leads to, and as
long as the channel is open the ledger has the delivery under the tags `T`. -/
structure Holds (m : Machine) (call d : Nat) (s : Settlement) (T : Tag → Prop) : Prop where
  alone : ∀ c ∈ m.calls, c.request.delivery? ≠ none → c.id = call
  state : m.channel.state? d = some s.state
  ledger : ∀ t, T t → m.channel.isOpen = true → (t, d) ∈ m.channel.pending

variable {e : Event} {T : Tag → Prop}

/-- A call stays the only settlement until another one is issued. -/
theorem Holds.alone_step (h : m.Holds call d s T)
    (hserial : ∀ call' r, e = .issue call' r → r.delivery? = none) :
    ∀ c ∈ (m.step e).1.calls, c.request.delivery? ≠ none → c.id = call := by
  intro c hc hsettle
  rcases origin_step hc with ⟨c₀, hc₀, hid, hrequest, _⟩ | ⟨_, hnone⟩ |
    ⟨d, s, multiple, requeue, delivery, n, he, _⟩
  · exact hid ▸ h.alone c₀ hc₀ (hrequest ▸ hsettle)
  · exact absurd hnone hsettle
  · exact nomatch hserial _ _ he

/-- What is about other calls leaves the delivery of the only settlement claimed, and on the ledger
where its place is not taken. -/
theorem Holds.step (h : m.Holds call d s T) (he : e.call? ≠ some call)
    (hserial : ∀ call' r, e = .issue call' r → r.delivery? = none)
    (hplace : ∀ t, T t → ∀ l, e.label? = some l → t.same l.1.tag = false) :
    (m.step e).1.Holds call d s T where
  alone := h.alone_step hserial
  state := by
    rcases state?_step_of_ne h.state s.state_ne e with hkept | ⟨c, s', multiple, requeue, error,
      rfl, hcall, hrequest, _⟩
    · exact hkept
    · have hsettles := Request.delivery?_of_settle hrequest
      have hid := h.alone c (mem_of_call? hcall).1 (by rw [hsettles]; exact nofun)
      exact absurd (congrArg some hid) he
  ledger := by
    intro t ht hopen
    have hentry := h.ledger t ht (isOpen_step_iff.mp hopen).1
    refine mem_pending_step_of_mem hentry hopen (hplace t ht) ?_
    intro c hc hsettle hcall
    exact he (h.alone c hc hsettle ▸ hcall)

/-- So does a whole run without events about the settlement. -/
theorem Holds.run {events : List Event} (h : m.Holds call d s T)
    (hothers : ∀ e ∈ events, e.call? ≠ some call)
    (hserial : ∀ call' r, .issue call' r ∈ events → r.delivery? = none)
    (hplace : ∀ t, T t → ∀ e ∈ events, ∀ l, e.label? = some l → t.same l.1.tag = false) :
    (m.run events).1.Holds call d s T := by
  induction events generalizing m with
  | nil => exact h
  | cons e events ih =>
    obtain ⟨he, hothers⟩ := List.forall_mem_cons.mp hothers
    have hnext : (m.step e).1.Holds call d s T :=
      h.step he (fun call' r hissue => hserial call' r (hissue ▸ List.mem_cons_self ..))
        fun t ht => hplace t ht e (List.mem_cons_self ..)
    exact ih hnext hothers (fun call' r hissue => hserial call' r (List.mem_cons_of_mem _ hissue))
      fun t ht e' he' => hplace t ht e' (List.mem_cons_of_mem _ he')

/-- A waiting delivery is settled on an open channel, and others go on: `mid` comes before the
transport's answer, and `late` before the delivery hears of it. All tags on the ledger can be
compared then. -/
structure Settles (m : Machine) (call d n : Nat) (s : Settlement) (multiple requeue : Value)
    (mid late : List Event) : Prop where
  isOpen : m.channel.isOpen = true
  awaits : ∃ delivery, m.channel.deliveries[d]? = some delivery ∧ delivery.Awaits n
  new : m.call? call = none
  mid_ne : ∀ e ∈ mid, e.call? ≠ some call
  late_ne : ∀ e ∈ late, e.call? ≠ some call
  compared :
    ∀ entry ∈ (m.run (.issue call (.settle d s multiple requeue) :: mid)).1.channel.pending,
      ∃ b, entry.1.before (.assigned n) = .ok b

namespace Settles

variable {mid late after : List Event} {thrown : Value}

/-- The delivery is claimed, and the transport is asked once. -/
theorem step_issue (h : m.Settles call d n s multiple requeue mid late) :
    m.step (.issue call (.settle d s multiple requeue)) =
      ((m.withChannel (m.claimed d s)).push (m.settleCall call d s multiple requeue n),
        [.ask call (Request.settlePrimitive s n (multiple.ifDefined (.bool false))
          (requeue.ifDefined (.bool true)))]) := by
  obtain ⟨delivery, hd, hawaits⟩ := h.awaits
  have hissue : m.issueSettle call d s (multiple.ifDefined (.bool false))
      (requeue.ifDefined (.bool true)) = _ := issueSettle_of_awaits hd hawaits
  rw [if_pos h.isOpen] at hissue
  exact hissue

/-- While others go on, the settlement stays in flight. -/
theorem call?_eq (h : m.Settles call d n s multiple requeue mid late) :
    (m.run (.issue call (.settle d s multiple requeue) :: mid)).1.call? call =
      some (m.settleCall call d s multiple requeue n) := by
  rw [run_cons_fst, (run_of_ne h.mid_ne).1, h.step_issue]
  exact call?_push_self (c := m.settleCall call d s multiple requeue n) h.new

/-- The transport's outcome decides the settlement, and a thrown one leaves the channel as it is. -/
theorem step_answered (h : m.Settles call d n s multiple requeue mid late) (o : Outcome)
    {asked : Machine}
    (hasked : asked = (m.run (.issue call (.settle d s multiple requeue) :: mid)).1) :
    ∃ v c multiple' requeue', (Request.settle d s multiple requeue).Concludes o v.answer ∧
      c.request = .settle d s multiple' requeue' ∧ c.phase = .decided v ∧
      (asked.step (.answered call o)).1.call? call = some c ∧
      concerning call (asked.step (.answered call o)).2 = [.await call] ∧
      ∀ thrown, o = .threw thrown → (asked.step (.answered call o)).1.channel = asked.channel := by
  subst hasked
  have hphase : (m.settleCall call d s multiple requeue n).phase = .asked true := if_pos h.isOpen
  obtain ⟨v, hconcludes, hdecided, hawait, hchannel⟩ :=
    step_answered_of_settle h.call?_eq rfl hphase (TagMap.fault_settle_of_before h.compared) o
  exact ⟨v, { m.settleCall call d s multiple requeue n with phase := .decided v },
    multiple.ifDefined (.bool false), requeue.ifDefined (.bool true), hconcludes, rfl, rfl,
    hdecided, hawait, hchannel⟩

/-- The settlement asks the transport once, and ends once, as the outcome says. -/
theorem effects_eq (h : m.Settles call d n s multiple requeue mid late)
    (hafter : call ∉ after.filterMap Event.issued?) (o : Outcome) :
    ∃ a, (Request.settle d s multiple requeue).Concludes o a ∧
      concerning call (m.run (.issue call (.settle d s multiple requeue) ::
        (mid ++ .answered call o :: (late ++ .heard call :: after)))).2 =
          [.ask call (Request.settlePrimitive s n (multiple.ifDefined (.bool false))
            (requeue.ifDefined (.bool true))), .await call, .finish call a] := by
  obtain ⟨v, c, multiple', requeue', hconcludes, hrequest, hphase, hcall, hawait, _⟩ :=
    h.step_answered o rfl
  rw [run_cons_fst] at hcall hawait
  rw [← (run_of_ne h.late_ne).1] at hcall
  obtain ⟨hover, hfinish⟩ := step_heard_of_decided hcall hrequest hphase
  refine ⟨v.answer, hconcludes, ?_⟩
  rw [concerning_run_cons, concerning_run_append_of_ne h.mid_ne, concerning_run_cons, hawait,
    concerning_run_append_of_ne h.late_ne, concerning_run_cons, hfinish, run_of_over hover hafter,
    h.step_issue, concerning_ask]
  rfl

/-- If no other settlement overlaps, the delivery of one that fails is claimed until it hears of
that, and on the ledger as before. -/
theorem holds_decided (h : m.Settles call d n s multiple requeue mid late)
    (hfree : ∀ c ∈ m.calls, c.request.delivery? = none)
    (hserial : ∀ call' r, .issue call' r ∈ mid ++ late → r.delivery? = none) (thrown : Value) :
    (((m.run (.issue call (.settle d s multiple requeue) :: mid)).1.step
      (.answered call (.threw thrown))).1.run late).1.Holds call d s
        (m.Placed d (mid ++ late)) := by
  obtain ⟨delivery, hd, _⟩ := h.awaits
  have hissued : (m.step (.issue call (.settle d s multiple requeue))).1.Holds call d s
      (m.Placed d (mid ++ late)) := by
    rw [h.step_issue]
    refine ⟨?_, state?_claimed hd, fun t ht _ => ht.1⟩
    intro c hc hsettle
    rcases mem_calls_push.mp hc with hc | rfl
    · exact absurd (hfree c hc) hsettle
    · rfl
  have hasked := hissued.run h.mid_ne
    (fun call' r hr => hserial call' r (List.mem_append_left _ hr))
    fun t ht e he => ht.2 e (List.mem_append_left _ he)
  obtain ⟨_, _, _, _, _, _, _, _, _, hchannel⟩ := h.step_answered (.threw thrown) rfl
  have hchannel := hchannel thrown rfl
  rw [run_cons_fst] at hchannel ⊢
  refine Holds.run ⟨hasked.alone_step nofun, ?_, ?_⟩ h.late_ne
    (fun call' r hr => hserial call' r (List.mem_append_right _ hr))
    fun t ht e he => ht.2 e (List.mem_append_right _ he)
  · rw [hchannel]
    exact hasked.state
  · rw [hchannel]
    exact hasked.ledger

/-- If no other settlement overlaps, a settlement that fails gives its delivery back exactly if the
thrown value can be described, and the ledger has the delivery as before. -/
theorem state_of_threw (h : m.Settles call d n s multiple requeue mid late)
    (hfree : ∀ c ∈ m.calls, c.request.delivery? = none)
    (hserial : ∀ call' r, .issue call' r ∈ mid ++ late → r.delivery? = none) {m' : Machine}
    (hend : m' = (m.run (.issue call (.settle d s multiple requeue) ::
      (mid ++ .answered call (.threw thrown) :: (late ++ [.heard call])))).1) :
    (m'.channel.state? d = some .unacknowledged ↔ ¬thrown.HidesText) ∧
      ∀ t, m.Placed d (mid ++ late) t → m'.channel.isOpen = true →
        (t, d) ∈ m'.channel.pending := by
  have hholds := h.holds_decided hfree hserial thrown
  obtain ⟨v, c, multiple', requeue', hconcludes, hrequest, hphase, hcall, _⟩ :=
    h.step_answered (.threw thrown) rfl
  rw [← (run_of_ne h.late_ne).1] at hcall
  rw [← List.cons_append, run_append_fst, run_cons_fst, run_concat_fst] at hend
  generalize ((m.run (.issue call (.settle d s multiple requeue) :: mid)).1.step
    (.answered call (.threw thrown))).1.run late = decided at hholds hcall hend
  obtain rfl := (mem_of_call? hcall).2
  rcases verdict_of_threw hconcludes with ⟨htext, rfl⟩ | ⟨htext, error, rfl⟩
  · have hheard : m' = decided.1.drop c.id := by
      simp only [hend, step, hcall, hear, hphase, hrequest]
      rfl
    rw [hheard]
    refine ⟨iff_of_false ?_ (not_not_intro htext), hholds.ledger⟩
    exact fun hwaits => s.state_ne (Option.some.inj (hholds.state.symm.trans hwaits))
  · rw [step_heard_of_refused hcall hrequest hphase] at hend
    rw [hend]
    exact ⟨iff_of_true (state?_restore hholds.state) htext, hholds.ledger⟩

end Settles

end Machine

/-- The tags of the messages that arrive are numbers. -/
def NumericTags (events : List Event) : Prop :=
  ∀ e ∈ events, ∀ l, e.label? = some l → ∃ x, l.1.tag.toValue = .number x

/-- Where all tags are numbers, each on the ledger can be compared with an assigned one. -/
theorem NumericTags.exists_before {events : List Event} (h : NumericTags events) (id : String)
    (n : Nat) : ∀ entry ∈ (reached id events).channel.pending,
      ∃ b, entry.1.before (.assigned n) = .ok b := by
  have hstart : ∀ t d, (t, d) ∈ (opened id).channel.pending → ∃ x, t.toValue = .number x :=
    fun _ _ ht => nomatch ht
  have hend := reached_invariant
    (P := fun m => ∀ t d, (t, d) ∈ m.channel.pending → ∃ x, t.toValue = .number x) hstart events ?_
  · intro entry hentry
    obtain ⟨x, hx⟩ := hend entry.1 entry.2 hentry
    exact Tag.exists_before hx n
  · rintro u e v rfl hu t d ht
    rcases tag_of_mem_pending_step ht with ⟨d', hd'⟩ | ⟨l, hl, rfl⟩
    · exact hu t d' hd'
    · exact h e (by simp) l hl

/-- The transport ends an attempt to open a channel with the channel, or with a failure that keeps
what was thrown as its cause. -/
def AttemptContained (id : String) : Outcome → Prop
  | .replied reply => attempt id (.replied reply) = .ok (opened id)
  | .threw thrown => ∃ a, attempt id (.threw thrown) = .error a ∧
      a.Keeps .channelCreation (.error thrown)

/-- What the effects of a run make of an operation and the transport's outcome: the transport is
asked once, and the call ends once, with the value or with a failure that keeps what was thrown as
its cause. A reserved exchange is declared at once, and nobody is asked. -/
def Request.Contained (r : Request) (call : Nat) (o : Outcome) (effects : List Effect) : Prop :=
  (r.IsReserved ∧ concerning call effects = [.finish call (.ok .undefined)]) ∨
    (¬r.IsReserved ∧ ∃ p a, r.primitive? = some p ∧ a.Keeps r.kind (r.conclude o) ∧
      concerning call effects = [.ask call p, .finish call a])

/-- What the effects of a run make of a settlement of the tag `n` and the transport's outcome: the
same, but the call also waits for its delivery to hear of the outcome. -/
def SettlementContained (s : Settlement) (n : Nat) (multiple requeue : Value) (call : Nat)
    (result : Except Value Value) (effects : List Effect) : Prop :=
  ∃ a, a.Keeps .acknowledgement result ∧ concerning call effects =
    [.ask call (Request.settlePrimitive s n (multiple.ifDefined (.bool false))
      (requeue.ifDefined (.bool true))), .await call, .finish call a]

/-- After a run that leaves the channel open, an operation is asked for, and the transport answers
it. -/
structure Operation (id : String) (u mid after : List Event) (call : Nat) (r : Request)
    (o : Outcome) : Prop where
  isOpen : (reached id u).channel.isOpen = true
  typed : r.Typed
  operation : r.delivery? = none
  numbered : Numbered (u ++ .issue call r :: (mid ++ .answered call o :: after))
  mid_ne : ∀ e ∈ mid, e.call? ≠ some call

/-- After a run that leaves the channel open, a waiting delivery is settled, the transport answers,
and the delivery hears of it. -/
structure SettlesAfter (id : String) (u mid late after : List Event) (call d n : Nat)
    (s : Settlement) (multiple requeue : Value) (o : Outcome) : Prop where
  isOpen : (reached id u).channel.isOpen = true
  awaits : ∃ delivery, (reached id u).channel.deliveries[d]? = some delivery ∧ delivery.Awaits n
  numbered : Numbered (u ++ .issue call (.settle d s multiple requeue) ::
    (mid ++ .answered call o :: (late ++ .heard call :: after)))
  numeric : NumericTags (u ++ .issue call (.settle d s multiple requeue) :: mid)
  mid_ne : ∀ e ∈ mid, e.call? ≠ some call
  late_ne : ∀ e ∈ late, e.call? ≠ some call

variable {id : String} {u mid late after : List Event} {call d n : Nat} {r : Request}
  {s : Settlement} {multiple requeue : Value} {o : Outcome}

/-- An attempt to open a channel is contained exactly if what was thrown can be described. -/
theorem attemptContained_iff (id : String) (o : Outcome) :
    AttemptContained id o ↔ ∀ thrown, o = .threw thrown → ¬thrown.HidesText := by
  cases o with
  | replied reply => exact iff_of_true rfl fun _ ho => nomatch ho
  | threw thrown =>
    have hfails := fails_ofThrown .channelCreation "Failed to create a channel" thrown
    have hattempt : attempt id (.threw thrown) = .error (.ofFailure
        (OperationError.ofThrown .channelCreation "Failed to create a channel" thrown)) := by
      simp only [attempt, openError]
      cases OperationError.ofThrown .channelCreation "Failed to create a channel" thrown <;> rfl
    rw [AttemptContained, hattempt]
    constructor
    · rintro ⟨a, ha, hkeeps⟩ _ ⟨⟩
      cases ha
      exact (Answer.keeps_ofFailure_iff hfails).mp hkeeps
    · exact fun htext => ⟨_, rfl, (Answer.keeps_ofFailure_iff hfails).mpr (htext thrown rfl)⟩

/-- An operation of an open channel is contained exactly if what it fails on can be described. -/
theorem Operation.contained_iff (h : Operation id u mid after call r o) :
    r.Contained call o
        ((reached id u).run (.issue call r :: (mid ++ .answered call o :: after))).2 ↔
      r.IsReserved ∨ r.Describes o := by
  have hnew : (reached id u).call? call = none :=
    Numbered.call?_eq_none (x := []) (by simpa using h.numbered) rfl
  have hrest := h.numbered.notMem_after rfl
  by_cases hreserved : r.IsReserved
  · obtain ⟨hsame, heffects⟩ :=
      Machine.step_issue_of_reserved h.isOpen h.typed hreserved call
    refine iff_of_true (.inl ⟨hreserved, ?_⟩) (.inl hreserved)
    rw [Machine.concerning_run_cons, heffects, hsame, Machine.run_of_over hnew hrest]
    rfl
  · have hafter : call ∉ after.filterMap Event.issued? := by
      rw [List.filterMap_append, List.mem_append, not_or] at hrest
      exact hrest.2
    obtain ⟨p, a, hp, hconcludes, heffects⟩ :=
      Machine.effects_of_passedOn h.isOpen h.typed h.operation hreserved hnew h.mid_ne hafter
    constructor
    · rintro (⟨hyes, _⟩ | ⟨_, p', a', _, hkeeps, heffects'⟩)
      · exact absurd hyes hreserved
      · rw [heffects] at heffects'
        cases heffects'
        exact .inr (hconcludes.keeps_iff.mp hkeeps)
    · rintro (hyes | hdescribes)
      · exact absurd hyes hreserved
      · exact .inr ⟨hreserved, p, a, hp, hconcludes.keeps_iff.mpr hdescribes, heffects⟩

/-- The channel settles the delivery then. -/
theorem SettlesAfter.settles (h : SettlesAfter id u mid late after call d n s multiple requeue o) :
    (reached id u).Settles call d n s multiple requeue mid late where
  isOpen := h.isOpen
  awaits := h.awaits
  new := Numbered.call?_eq_none (x := []) (by simpa using h.numbered) rfl
  mid_ne := h.mid_ne
  late_ne := h.late_ne
  compared := by
    have hcompared := h.numeric.exists_before id n
    rwa [reached_append] at hcompared

/-- A settlement on an open channel is contained exactly if what it fails on can be described. -/
theorem SettlesAfter.contained_iff
    (h : SettlesAfter id u mid late after call d n s multiple requeue o) :
    SettlementContained s n multiple requeue call ((Request.settle d s multiple requeue).conclude o)
        ((reached id u).run (.issue call (.settle d s multiple requeue) ::
          (mid ++ .answered call o :: (late ++ .heard call :: after)))).2 ↔
      (Request.settle d s multiple requeue).Describes o := by
  have hafter : call ∉ after.filterMap Event.issued? := by
    intro hmem
    obtain ⟨e, he, hissued⟩ := List.mem_filterMap.mp hmem
    exact h.numbered.notMem_after rfl (List.mem_filterMap.mpr ⟨e, by simp [he], hissued⟩)
  obtain ⟨a, hconcludes, heffects⟩ := h.settles.effects_eq hafter o
  constructor
  · rintro ⟨a', hkeeps, heffects'⟩
    rw [heffects] at heffects'
    cases heffects'
    exact hconcludes.keeps_iff.mp hkeeps
  · exact fun hdescribes => ⟨a, hconcludes.keeps_iff.mpr hdescribes, heffects⟩

/-- What happens beneath a channel is contained exactly if what is thrown can be described: whoever
opens a channel, or asks an open one for an operation or a settlement, gets the value, or a failure
of the request's own kind with the thrown value as its cause, after one primitive. A settlement that
fails while no other one overlaps gives its delivery back in the same case, and the ledger has the
delivery as before. -/
theorem errors_contained (id : String) (o : Outcome) :
    (AttemptContained id o ↔ ∀ thrown, o = .threw thrown → ¬thrown.HidesText) ∧
    (∀ u mid after call r, Operation id u mid after call r o →
      (r.Contained call o
          ((reached id u).run (.issue call r :: (mid ++ .answered call o :: after))).2 ↔
        r.IsReserved ∨ r.Describes o)) ∧
    ∀ u mid late after call d n s multiple requeue,
      SettlesAfter id u mid late after call d n s multiple requeue o →
      (SettlementContained s n multiple requeue call
          ((Request.settle d s multiple requeue).conclude o)
          ((reached id u).run (.issue call (.settle d s multiple requeue) ::
            (mid ++ .answered call o :: (late ++ .heard call :: after)))).2 ↔
        (Request.settle d s multiple requeue).Describes o) ∧
      ∀ thrown m', o = .threw thrown → (∀ c ∈ (reached id u).calls, c.request.delivery? = none) →
        (∀ call' r, .issue call' r ∈ mid ++ late → r.delivery? = none) →
        m' = reached id (u ++ .issue call (.settle d s multiple requeue) ::
          (mid ++ .answered call o :: (late ++ [.heard call]))) →
        (m'.channel.state? d = some .unacknowledged ↔ ¬thrown.HidesText) ∧
        ∀ t, (reached id u).Placed d (mid ++ late) t → m'.channel.isOpen = true →
          (t, d) ∈ m'.channel.pending := by
  refine ⟨attemptContained_iff id o, ?_, ?_⟩
  · intro u mid after call r h
    exact h.contained_iff
  · intro u mid late after call d n s multiple requeue h
    refine ⟨h.contained_iff, ?_⟩
    rintro thrown m' rfl hfree hserial hend
    rw [reached_append] at hend
    exact h.settles.state_of_threw hfree hserial hend

/-- A thrown value that hides its own conversion. -/
def textless : Value := .table [("toString", .text "x")]

/-- It cannot be described. -/
theorem hidesText_textless : textless.HidesText := ⟨.table rfl, nofun⟩

/-- On a new channel, a prefetch is asked for and answered. -/
theorem operation_prefetch (o : Outcome) :
    Operation "c" [] [] [] 0 (.prefetch (.ofNat 1) .undefined) o where
  isOpen := rfl
  typed := ⟨_, rfl⟩
  operation := rfl
  numbered := List.nodup_singleton 0
  mid_ne := fun _ he => nomatch he

/-- On a new channel, a message arrives and is acknowledged. -/
theorem settlesAfter_arrived (o : Outcome) :
    SettlesAfter "c" [.arrived 0 .manual (messageOf 1)] [] [] [] 0 0 1 .acknowledge .undefined
      .undefined o where
  isOpen := rfl
  awaits := ⟨⟨messageOf 1, .manual, .unacknowledged⟩, rfl, rfl, rfl, rfl⟩
  numbered := List.nodup_singleton 0
  numeric := by
    intro e he l hl
    rcases List.mem_pair.mp he with rfl | rfl
    · cases hl
      exact ⟨.ofNat 1, rfl⟩
    · exact nomatch hl
  mid_ne := fun _ he => nomatch he
  late_ne := fun _ he => nomatch he

/-- A prefetch that is answered with the value is not contained, and an acknowledgement leaves its
delivery claimed. -/
theorem errors_contained_textless :
    ¬(Request.prefetch (.ofNat 1) .undefined).Contained 0 (.threw textless)
        ((opened "c").run [.issue 0 (.prefetch (.ofNat 1) .undefined),
          .answered 0 (.threw textless)]).2 ∧
      (reached "c" [.arrived 0 .manual (messageOf 1),
        .issue 0 (.settle 0 .acknowledge .undefined .undefined), .answered 0 (.threw textless),
        .heard 0]).channel.state? 0 ≠ some .unacknowledged := by
  obtain ⟨_, hoperation, hsettlement⟩ := errors_contained "c" (.threw textless)
  constructor
  · intro hcontained
    have hiff := hoperation [] [] [] 0 _ (operation_prefetch _)
    rcases hiff.mp hcontained with hreserved | hdescribes
    · exact hreserved
    · exact hdescribes textless rfl hidesText_textless
  · intro hwaits
    have hback := (hsettlement _ [] [] [] 0 0 1 _ _ _ (settlesAfter_arrived _)).2 textless _ rfl
      (fun _ hc => nomatch hc) (fun _ _ hr => nomatch hr) rfl
    exact hback.1.mp hwaits hidesText_textless

/-- An operation of an open channel can break on what is thrown beneath. -/
theorem exists_broken :
    ¬∀ (id : String) (u mid after : List Event) (call : Nat) (r : Request) (o : Outcome),
      Operation id u mid after call r o → r.Contained call o
        ((reached id u).run (.issue call r :: (mid ++ .answered call o :: after))).2 := by
  intro h
  have hcontained := h "c" [] [] [] 0 _ (.threw textless) (operation_prefetch _)
  rcases (operation_prefetch _).contained_iff.mp hcontained with hreserved | hdescribes
  · exact hreserved
  · exact hdescribes textless rfl hidesText_textless

end Amqp.Channel
