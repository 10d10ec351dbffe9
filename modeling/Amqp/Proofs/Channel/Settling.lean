import Amqp.Proofs.Channel.Sound

/-!
# The course of a settlement

A settlement claims its delivery, asks the transport, brings the ledger up to date with the answer,
and lets the delivery hear of it. A delivery in a terminal state that no settlement in flight is
about has reached its end: nothing that follows changes it, and nobody is asked about it again.
-/

namespace Amqp.Channel

namespace Machine

/-- Some settlement of the delivery is in flight. -/
def Settling (m : Machine) (d : Nat) : Prop := ∃ c ∈ m.calls, c.request.delivery? = some d

instance (m : Machine) (d : Nat) : Decidable (m.Settling d) :=
  inferInstanceAs (Decidable (∃ c ∈ m.calls, c.request.delivery? = some d))

/-- The tag that the transport has been asked to settle for a call and has not answered, and whether
the smaller ones are to be settled with it. -/
def asked? (m : Machine) (call : Nat) : Option (Nat × Bool) :=
  match m.call? call with
  | some { phase := .asked _, request := .settle _ _ multiple _, tag, .. } =>
    some (tag, multiple.isTruthy)
  | _ => none

/-- The settlement of a delivery is refused, and the delivery has not heard of it. -/
def Refuses (m : Machine) (call d : Nat) : Prop :=
  ∃ c error, m.call? call = some c ∧ c.request.delivery? = some d ∧
    c.phase = .decided (.refused error)

variable {m : Machine} {e : Event} {c : Call} {d n : Nat} {s : Settlement}
  {multiple requeue : Value} {wasOpen : Bool}

/-- A settlement that the transport has been asked for. -/
theorem asked?_eq_some_iff {call : Nat} {all : Bool} :
    m.asked? call = some (n, all) ↔ ∃ c d s multiple requeue wasOpen, m.call? call = some c ∧
      c.request = .settle d s multiple requeue ∧ c.phase = .asked wasOpen ∧ c.tag = n ∧
        multiple.isTruthy = all := by
  constructor
  · intro h
    unfold asked? at h
    split at h
    · rename_i id d s multiple requeue summary tag wasOpen hcall
      cases h
      exact ⟨_, d, s, multiple, requeue, wasOpen, hcall, rfl, rfl, rfl, rfl⟩
    · exact nomatch h
  · rintro ⟨⟨id, request, summary, tag, phase⟩, d, s, multiple, requeue, wasOpen, hcall, rfl, rfl,
      rfl, rfl⟩
    simp only [asked?, hcall]

/-- The transport accepts a settlement, and no tag stops it: the ledger is brought up to date. -/
theorem step_accepted (hcall : m.call? c.id = some c)
    (hrequest : c.request = .settle d s multiple requeue) (hphase : c.phase = .asked wasOpen)
    (hfault : (m.channel.release c.tag s multiple.isTruthy).2 = none) (reply : Value) :
    m.step (.answered c.id (.replied reply)) =
      ((m.decided c .accepted).withChannel (m.channel.release c.tag s multiple.isTruthy).1,
        [.await c.id]) := by
  simp only [step, hcall, answer, hphase, hrequest, verdictOf, decide_accepted, hfault,
    Option.map_none, Option.getD_none]

/-- No tag stops a settlement on a sound channel. -/
theorem Sound.fault_release (h : m.Sound) (n : Nat) (s : Settlement) (multiple : Bool) :
    (m.channel.release n s multiple).2 = none :=
  TagMap.fault_settle h.assigned

/-- The transport refuses a settlement with an error: the ledger stays as it is. -/
theorem step_refused (hcall : m.call? c.id = some c)
    (hrequest : c.request = .settle d s multiple requeue) (hphase : c.phase = .asked wasOpen)
    (name message : String) (fields : List (String × Value)) :
    ∃ error, (m.step (.answered c.id (.threw (.error name message fields)))).1 =
      m.decided c (.refused error) := by
  refine ⟨⟨.acknowledgement, Request.settleSummary s c.tag, message, .error name message fields,
    replyCodeOf (.error name message fields)⟩, ?_⟩
  simp only [step, hcall, answer, hphase, hrequest]
  rfl

end Machine

variable {id : String} {events : List Event} {m : Machine} {d n : Nat}

/-- A delivery that has been settled refuses every further settlement, and asks nobody. -/
theorem Manual.step_settle_of_ne {state : DeliveryState} (hd : m.channel.Manual d n)
    (hstate : m.channel.state? d = some state) (hne : state ≠ .unacknowledged) (call : Nat)
    (s : Settlement) (multiple requeue : Value) :
    m.step (.issue call (.settle d s multiple requeue)) =
      (m, [.finish call (.misused (.settled n state))]) := by
  obtain ⟨delivery, hdelivery, _, htag⟩ := manual_iff.mp hd
  obtain rfl : delivery.state = state := by
    rw [state?, hdelivery, Option.map_some] at hstate
    exact Option.some.inj hstate
  exact Machine.issueSettle_of_refused hdelivery (delivery.claim_of_settled htag hne s)

/-- The delivery is settled for good: whatever follows, its state is one terminal state, and every
further settlement fails as a repeated one without asking anybody. -/
def Final (id : String) (events : List Event) (d n : Nat) : Prop :=
  ∃ state, state ≠ .unacknowledged ∧ ∀ rest : List Event,
    (reached id (events ++ rest)).channel.state? d = some state ∧
    ∀ call s multiple requeue,
      (reached id (events ++ rest)).step (.issue call (.settle d s multiple requeue)) =
        (reached id (events ++ rest), [.finish call (.misused (.settled n state))])

/-- A settlement in flight after a step was there before, or it has just claimed a delivery that
waited. -/
theorem settling_step {e : Event} {c : Call} (hc : c ∈ (m.step e).1.calls)
    (hd : c.request.delivery? = some d) :
    (∃ c₀ ∈ m.calls, c₀.id = c.id ∧ c₀.request.delivery? = some d) ∨
      (e.issued? = some c.id ∧ m.channel.state? d = some .unacknowledged) := by
  rcases Machine.origin_step hc with ⟨c₀, hc₀, hid, hrequest, _⟩ | ⟨_, hnone⟩ |
    ⟨d', s, multiple, requeue, delivery, n, rfl, hdelivery, hawaits, hc', _⟩
  · exact .inl ⟨c₀, hc₀, hid, hrequest ▸ hd⟩
  · exact nomatch hnone.symm.trans hd
  · rw [hc'] at hd
    cases hd
    exact .inr ⟨rfl, by rw [state?, hdelivery, Option.map_some, hawaits.2.2]⟩

/-- A terminal state with no settlement in flight stays as it is. -/
theorem settled_step {state : DeliveryState} (hstate : m.channel.state? d = some state)
    (hne : state ≠ .unacknowledged) (hquiet : ¬m.Settling d) (e : Event) :
    (m.step e).1.channel.state? d = some state ∧ ¬(m.step e).1.Settling d := by
  constructor
  · rcases state?_step_of_ne hstate hne e with hstate | ⟨c, s, multiple, requeue, error, _, hcall,
      hrequest, _⟩
    · exact hstate
    · exact absurd ⟨c, (Machine.mem_of_call? hcall).1, Request.delivery?_of_settle hrequest⟩ hquiet
  · rintro ⟨c, hc, hd⟩
    rcases settling_step hc hd with ⟨c₀, hc₀, _, hd₀⟩ | ⟨_, hwaits⟩
    · exact hquiet ⟨c₀, hc₀, hd₀⟩
    · exact hne (Option.some.inj (hstate.symm.trans hwaits))

/-- A terminal state with no settlement in flight is final. -/
theorem final_of_settled {state : DeliveryState} (hd : (reached id events).channel.Manual d n)
    (hstate : (reached id events).channel.state? d = some state) (hne : state ≠ .unacknowledged)
    (hquiet : ¬(reached id events).Settling d) : Final id events d n := by
  refine ⟨state, hne, ?_⟩
  intro rest
  have hend := reached_keeps
    (P := fun m => m.channel.Manual d n ∧ m.channel.state? d = some state ∧ ¬m.Settling d)
    ⟨hd, hstate, hquiet⟩ rest fun _ e _ _ h => ⟨h.1.step e, settled_step h.2.1 hne h.2.2 e⟩
  obtain ⟨hd, hstate, _⟩ := hend
  exact ⟨hstate, hd.step_settle_of_ne hstate hne⟩

end Amqp.Channel
