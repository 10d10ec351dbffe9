import Amqp.Proofs.Channel.Settling
import Amqp.Proofs.Error.Description

/-!
# Settlements that do not overlap

As long as each settlement is over before the next one is issued, and refusals can be described, one
settlement is in flight at most. Its delivery is the only one that is claimed and not settled.
-/

namespace Amqp.Channel

namespace Machine

/-- A settlement of the delivery is in flight and not accepted. -/
def Held (m : Machine) (d : Nat) : Prop :=
  ∃ c ∈ m.calls, c.request.delivery? = some d ∧ c.phase ≠ .decided .accepted

/-- One settlement is in flight at most, and none is broken. -/
structure Orderly (m : Machine) : Prop where
  one : ∀ c ∈ m.calls, ∀ c' ∈ m.calls, c.request.delivery? ≠ none → c'.request.delivery? ≠ none →
    c = c'
  whole : ∀ c ∈ m.calls, ∀ thrown, c.phase ≠ .decided (.broke thrown)

end Machine

/-- The event issues no settlement while another one is in flight. -/
def Event.SerialFor (e : Event) (m : Machine) : Prop :=
  ∀ call r, e = .issue call r → r.delivery? ≠ none → ∀ c ∈ m.calls, c.request.delivery? = none

/-- What the event has been thrown can be described. -/
def Event.Described (e : Event) : Prop :=
  ∀ call thrown, e = .answered call (.threw thrown) → ¬thrown.HidesText

namespace Machine

variable {m : Machine} {e : Event} {d n : Nat}

/-- A thrown value that can be described refuses a settlement. -/
theorem verdictOf_of_described {thrown : Value} (h : ¬thrown.HidesText) (s : Settlement) (n : Nat) :
    ∃ error, verdictOf s n (.threw thrown) = .refused error := by
  have hfails := fails_ofThrown .acknowledgement (Request.settleSummary s n) thrown
  simp only [verdictOf]
  cases hfailure : OperationError.ofThrown .acknowledgement (Request.settleSummary s n) thrown with
  | ok error => exact ⟨error, rfl⟩
  | error fault =>
    rw [hfailure] at hfails
    cases hfails with
    | broken htext => exact absurd htext h

/-- Every step without overlap keeps a sound channel orderly. -/
theorem Orderly.step (h : m.Orderly) (hsound : m.Sound) (hnew : e.NewFor m)
    (hserial : e.SerialFor m) (hdescribed : e.Described) : (m.step e).1.Orderly where
  one := by
    intro c hc c' hc' hd hd'
    refine eq_of_mem_calls_step (fun _ hr => hr) (hsound.unique.step hnew) h.one ?_ hc hc' hd hd'
    intro call d s multiple requeue delivery n he _ _ _ c₀ hc₀ hd₀
    exact hd₀ (hserial call _ he (by rintro ⟨⟩) c₀ hc₀)
  whole := by
    intro c hc
    have hchange := m.step_transition e
    generalize (m.step e).1 = m' at hchange hc
    cases hchange with
    | idle | turned | arrived | settledAlone | lost => exact h.whole c hc
    | claimed =>
      rcases mem_calls_push.mp hc with hc | rfl
      · exact h.whole c hc
      · simp only [settleCall]
        split <;> rintro _ ⟨⟩
    | passedOn =>
      rcases mem_calls_push.mp hc with hc | rfl
      · exact h.whole c hc
      · rintro _ ⟨⟩
    | closing | aborted =>
      rw [calls_withChannel] at hc
      rcases mem_calls_push.mp hc with hc | rfl
      · exact h.whole c hc
      · rintro _ ⟨⟩
    | accepted _ _ _ hv =>
      rw [hsound.fault_release, Option.map_none, Option.getD_none] at hv
      rw [calls_withChannel] at hc
      rcases mem_calls_decided.mp hc with ⟨hc, _⟩ | rfl
      · exact h.whole c hc
      · rw [hv]
        rintro _ ⟨⟩
    | @refused c' d s _ _ thrown =>
      rcases mem_calls_decided.mp hc with ⟨hc, _⟩ | rfl
      · exact h.whole c hc
      · obtain ⟨error, hv⟩ := verdictOf_of_described (hdescribed _ thrown rfl) s c'.tag
        rw [hv]
        rintro _ ⟨⟩
    | closeFailed | closeDone | answered | restored | concluded =>
      exact h.whole c (mem_calls_drop.mp hc).1

/-- A settlement that is decided and not refused is accepted. -/
theorem Orderly.accepted_of_not_refused (h : m.Orderly) {c : Call} {v : Verdict} (hc : c ∈ m.calls)
    (hphase : c.phase = .decided v) (hv : ∀ error, v ≠ .refused error) :
    c.phase = .decided .accepted := by
  cases v with
  | accepted => exact hphase
  | refused error => exact absurd rfl (hv error)
  | broke thrown => exact absurd hphase (h.whole c hc thrown)

/-- Two settlements in flight are one. -/
theorem Orderly.eq (h : m.Orderly) {c c' : Call} {d' : Nat} (hc : c ∈ m.calls) (hc' : c' ∈ m.calls)
    (hd : c.request.delivery? = some d) (hd' : c'.request.delivery? = some d') : c = c' := by
  refine h.one c hc c' hc' ?_ ?_
  · rw [hd]
    exact nofun
  · rw [hd']
    exact nofun

/-- With a settlement in flight, its delivery is the only one that can be held. -/
theorem Orderly.held_iff (h : m.Orderly) {c : Call} {d' : Nat} (hc : c ∈ m.calls)
    (hd : c.request.delivery? = some d) : m.Held d' ↔ d' = d ∧ c.phase ≠ .decided .accepted := by
  constructor
  · rintro ⟨c', hc', hd', hphase⟩
    obtain rfl := h.eq hc' hc hd' hd
    exact ⟨Option.some.inj (hd'.symm.trans hd), hphase⟩
  · rintro ⟨rfl, hphase⟩
    exact ⟨c, hc, hd, hphase⟩

/-- When the only settlement in flight is over, nothing is held. -/
theorem Orderly.not_held_drop (h : m.Orderly) {c : Call} {d' : Nat} (hc : c ∈ m.calls)
    (hd : c.request.delivery? = some d) : ¬(m.drop c.id).Held d' := by
  rintro ⟨c', hc', hd', _⟩
  obtain ⟨hc', hne⟩ := mem_calls_drop.mp hc'
  obtain rfl := h.eq hc' hc hd' hd
  exact hne rfl

/-- When the only settlement in flight is decided, its delivery is held unless it is accepted. -/
theorem Orderly.held_decided_iff (h : m.Orderly) {c : Call} {d' : Nat} (hc : c ∈ m.calls)
    (hd : c.request.delivery? = some d) (v : Verdict) :
    (m.decided c v).Held d' ↔ d' = d ∧ v ≠ .accepted := by
  constructor
  · rintro ⟨c', hc', hd', hphase⟩
    rcases mem_calls_decided.mp hc' with ⟨hc', hne⟩ | rfl
    · obtain rfl := h.eq hc' hc hd' hd
      exact absurd rfl hne
    · exact ⟨Option.some.inj (hd'.symm.trans hd), fun hv => hphase (congrArg Phase.decided hv)⟩
  · rintro ⟨rfl, hv⟩
    exact ⟨_, mem_calls_decided.mpr (.inr rfl), hd, fun hphase => hv (Phase.decided.inj hphase)⟩

/-- A delivery that has not arrived is not held. -/
theorem Sound.not_held_length (h : m.Sound) : ¬m.Held m.channel.deliveries.length := by
  rintro ⟨c, hc, hd, _⟩
  obtain ⟨s, multiple, requeue, hrequest⟩ := Request.delivery?_eq_some_iff.mp hd
  exact absurd (h.claimed c hc _ s multiple requeue hrequest).1.lt (Nat.lt_irrefl _)

/-- The end of another call changes nothing about what is held. -/
theorem held_drop_iff (hunique : m.UniqueIds) {c : Call} (hc : c ∈ m.calls)
    (hnone : c.request.delivery? = none) : (m.drop c.id).Held d ↔ m.Held d := by
  constructor
  · rintro ⟨c', hc', hd, hphase⟩
    exact ⟨c', (mem_calls_drop.mp hc').1, hd, hphase⟩
  · rintro ⟨c', hc', hd, hphase⟩
    refine ⟨c', mem_calls_drop.mpr ⟨hc', ?_⟩, hd, hphase⟩
    intro hid
    obtain rfl := hunique.eq hc' hc hid
    exact nomatch hnone.symm.trans hd

/-- Another call changes nothing about what is held. -/
theorem held_push_iff {c : Call} (hnone : c.request.delivery? = none) :
    (m.push c).Held d ↔ m.Held d := by
  constructor
  · rintro ⟨c', hc', hd, hphase⟩
    rcases mem_calls_push.mp hc' with hc' | rfl
    · exact ⟨c', hc', hd, hphase⟩
    · exact nomatch hnone.symm.trans hd
  · rintro ⟨c', hc', hd, hphase⟩
    exact ⟨c', mem_calls_push.mpr (.inl hc'), hd, hphase⟩

end Machine

end Amqp.Channel
