import Amqp.Proofs.Channel.Run
import Amqp.Proofs.Delivery.TagMap

/-!
# The ledger, the deliveries and the settlements in flight

A delivery keeps its message and its mode for good; only its state changes. `Sound` is what ties
the three accounts of a channel together: who is on the ledger is a manual delivery under its own
tag, and a settlement in flight has claimed its delivery for itself alone. Every step of a run keeps
that, as long as messages that have to be settled come under assigned tags, no two under the same.
-/

namespace Amqp

/-- The state of a delivery that is marked as settled together with a later one. -/
def Settlement.mark (s : Settlement) (state : DeliveryState) : DeliveryState :=
  if state = .unacknowledged then s.state else state

/-- A mark leads to a terminal state. -/
theorem Settlement.mark_ne (s : Settlement) (state : DeliveryState) :
    s.mark state ≠ .unacknowledged := by
  cases s <;> cases state <;> decide

/-- A mark leaves a terminal state as it is. -/
theorem Settlement.mark_of_ne (s : Settlement) {state : DeliveryState}
    (h : state ≠ .unacknowledged) : s.mark state = state :=
  if_neg h

namespace Delivery

theorem message_markSettled (d : Delivery) (s : Settlement) :
    (d.markSettled s).message = d.message := by
  unfold markSettled
  split <;> rfl

theorem mode_markSettled (d : Delivery) (s : Settlement) : (d.markSettled s).mode = d.mode := by
  unfold markSettled
  split <;> rfl

theorem state_markSettled (d : Delivery) (s : Settlement) :
    (d.markSettled s).state = s.mark d.state := by
  unfold markSettled Settlement.mark
  split <;> rfl

/-- A delivery that is marked once is no different if it is marked again. -/
theorem markSettled_markSettled (d : Delivery) (s : Settlement) :
    (d.markSettled s).markSettled s = d.markSettled s := by
  have hstate : (d.markSettled s).state ≠ .unacknowledged := by
    rw [state_markSettled]
    exact s.mark_ne _
  rw [markSettled, if_neg hstate]

end Delivery

namespace Channel

/-- The message and the mode that an event brings. -/
def Event.label? : Event → Option (Message × AckMode)
  | .arrived _ mode message => some (message, mode)
  | _ => none

/-- The tags of the messages that have to be settled, `none` for one that is not assigned. -/
def manualTags (labels : List (Message × AckMode)) : List (Option Nat) :=
  (labels.filter (·.2 = .manual)).map (·.1.tag.number?)

/-- The messages of a run that have to be settled come under assigned tags, no two under the
same. -/
def Tagged (events : List Event) : Prop :=
  none ∉ manualTags (events.filterMap Event.label?) ∧
    (manualTags (events.filterMap Event.label?)).Nodup

instance (events : List Event) : Decidable (Tagged events) :=
  inferInstanceAs (Decidable (_ ∧ _))

/-- The message and the mode of each delivery so far. -/
def labels (c : Channel) : List (Message × AckMode) := c.deliveries.map fun x => (x.message, x.mode)

/-- The state of a delivery. -/
def state? (c : Channel) (d : Nat) : Option DeliveryState := c.deliveries[d]?.map (·.state)

/-- The delivery is one that has to be settled, under the tag `n`. -/
def Manual (c : Channel) (d n : Nat) : Prop :=
  ∃ message, c.labels[d]? = some (message, .manual) ∧ message.tag = .assigned n

/-- The delivery waits for a settlement. -/
def Tracks (c : Channel) (d : Nat) : Prop := ∃ t, (t, d) ∈ c.pending

/-- A change of one delivery that leaves message and mode alone leaves all of them alone. -/
theorem labels_modifyDelivery {f : Delivery → Delivery}
    (hf : ∀ x, (f x).message = x.message ∧ (f x).mode = x.mode) (c : Channel) (d : Nat) :
    (c.modifyDelivery d f).labels = c.labels := by
  apply List.ext_getElem?
  intro i
  simp only [labels, modifyDelivery, List.getElem?_map, List.getElem?_modify]
  by_cases hi : d = i
  · cases c.deliveries[i]? <;> simp [hi, hf]
  · simp [hi]

@[simp] theorem labels_claimed (m : Machine) (d : Nat) (s : Settlement) :
    (m.claimed d s).labels = m.channel.labels :=
  labels_modifyDelivery (f := (·.settled s)) (fun _ => ⟨rfl, rfl⟩) _ _

@[simp] theorem labels_restore (c : Channel) (d : Nat) :
    (c.modifyDelivery d Delivery.restore).labels = c.labels :=
  labels_modifyDelivery (f := Delivery.restore) (fun _ => ⟨rfl, rfl⟩) _ _

@[simp] theorem labels_receive (c : Channel) (message : Message) (mode : AckMode) :
    (c.receive message mode).labels = c.labels ++ [(message, mode)] := by
  simp [labels, receive]

/-- A release finds each delivery marked if it is covered, and else as it was. -/
theorem getElem?_deliveries_release (c : Channel) (n : Nat) (s : Settlement) (multiple : Bool)
    (i : Nat) :
    (c.release n s multiple).1.deliveries[i]? =
      if i ∈ ((c.pending.settle (.assigned n) multiple).covered).map (·.2) then
        c.deliveries[i]?.map (·.markSettled s)
      else c.deliveries[i]? := by
  rw [release_fst]
  exact TagMap.getElem?_foldl_modify (fun x => x.markSettled_markSettled s) _ _ i

@[simp] theorem labels_release (c : Channel) (n : Nat) (s : Settlement) (multiple : Bool) :
    (c.release n s multiple).1.labels = c.labels := by
  apply List.ext_getElem?
  intro i
  rw [labels, labels, List.getElem?_map, List.getElem?_map, getElem?_deliveries_release]
  split
  · simp [Function.comp_def, Delivery.message_markSettled, Delivery.mode_markSettled]
  · rfl

/-- A change of one delivery's state leaves the others alone. -/
theorem state?_modifyDelivery_of_ne {c : Channel} {d i : Nat} {f : Delivery → Delivery}
    (h : d ≠ i) : (c.modifyDelivery d f).state? i = c.state? i := by
  simp [state?, modifyDelivery, h]

/-- A delivery that is claimed has the state that its settlement leads to. -/
theorem state?_claimed {m : Machine} {d : Nat} {s : Settlement} {delivery : Delivery}
    (hd : m.channel.deliveries[d]? = some delivery) : (m.claimed d s).state? d = some s.state := by
  simp [state?, Machine.claimed, modifyDelivery, hd, Delivery.settled]

/-- A delivery that is given back waits again. -/
theorem state?_restore {c : Channel} {d : Nat} {state : DeliveryState}
    (hd : c.state? d = some state) :
    (c.modifyDelivery d Delivery.restore).state? d = some .unacknowledged := by
  obtain ⟨delivery, hd, _⟩ := Option.map_eq_some_iff.mp hd
  simp [state?, modifyDelivery, hd, Delivery.restore]

/-- A new delivery leaves the others alone. -/
theorem state?_receive_of_lt {c : Channel} {message : Message} {mode : AckMode} {d : Nat}
    (h : d < c.deliveries.length) : (c.receive message mode).state? d = c.state? d := by
  simp [state?, receive, List.getElem?_append_left h]

/-- A new delivery waits. -/
theorem state?_receive_self (c : Channel) (message : Message) (mode : AckMode) :
    (c.receive message mode).state? c.deliveries.length = some .unacknowledged := by
  simp [state?, receive]

/-- A release marks the deliveries that it covers. -/
theorem state?_release (c : Channel) (n : Nat) (s : Settlement) (multiple : Bool) (i : Nat) :
    (c.release n s multiple).1.state? i =
      if i ∈ ((c.pending.settle (.assigned n) multiple).covered).map (·.2) then
        (c.state? i).map s.mark
      else c.state? i := by
  rw [state?, getElem?_deliveries_release]
  split
  · simp [state?, Function.comp_def, Delivery.state_markSettled]
  · rfl

/-- A release leaves terminal states as they are. -/
theorem state?_release_of_ne {c : Channel} {n : Nat} {s : Settlement} {multiple : Bool} {i : Nat}
    {state : DeliveryState} (hi : c.state? i = some state) (hstate : state ≠ .unacknowledged) :
    (c.release n s multiple).1.state? i = some state := by
  rw [state?_release, hi, Option.map_some, s.mark_of_ne hstate, ite_self]

/-- A delivery that has to be settled is a manual one with an assigned tag. -/
theorem manual_iff {c : Channel} {d n : Nat} :
    c.Manual d n ↔
      ∃ x, c.deliveries[d]? = some x ∧ x.mode = .manual ∧ x.message.tag = .assigned n := by
  simp only [Manual, labels, List.getElem?_map, Option.map_eq_some_iff, Prod.mk.injEq]
  constructor
  · rintro ⟨message, ⟨x, hx, rfl, hmode⟩, htag⟩
    exact ⟨x, hx, hmode, htag⟩
  · rintro ⟨x, hx, hmode, htag⟩
    exact ⟨_, ⟨x, hx, rfl, hmode⟩, htag⟩

/-- A delivery that has to be settled is one that has arrived. -/
theorem Manual.lt {c : Channel} {d n : Nat} (h : c.Manual d n) : d < c.deliveries.length := by
  obtain ⟨x, hx, _⟩ := manual_iff.mp h
  exact (List.getElem?_eq_some_iff.mp hx).1

/-- A delivery that has arrived is in some state. -/
theorem Manual.exists_state {c : Channel} {d n : Nat} (h : c.Manual d n) :
    ∃ state, c.state? d = some state := by
  obtain ⟨x, hx, _⟩ := manual_iff.mp h
  exact ⟨x.state, by rw [state?, hx, Option.map_some]⟩

/-- The tag of a manual delivery is among those that have to be settled. -/
theorem Manual.mem_manualTags {c : Channel} {d n : Nat} (h : c.Manual d n) :
    some n ∈ manualTags c.labels := by
  obtain ⟨message, hd, htag⟩ := h
  rw [manualTags, List.mem_map]
  exact ⟨_, List.mem_filter.mpr ⟨List.mem_of_getElem? hd, rfl⟩, by simp [htag, Tag.number?]⟩

/-- The tag of a manual delivery is its only one. -/
theorem Manual.tag_eq {c : Channel} {d k n : Nat} (h : c.Manual d n) (h' : c.Manual d k) :
    n = k := by
  obtain ⟨x, hx, _, htag⟩ := manual_iff.mp h
  obtain ⟨x', hx', _, htag'⟩ := manual_iff.mp h'
  obtain rfl := Option.some.inj (hx.symm.trans hx')
  exact Tag.assigned.inj (htag.symm.trans htag')

/-- An automatic delivery is not one that has to be settled. -/
theorem Manual.ne_of_auto {c : Channel} {d d' n : Nat} {delivery : Delivery} (h : c.Manual d n)
    (hd : c.deliveries[d']? = some delivery) (hmode : delivery.mode = .auto) : d' ≠ d := by
  rintro rfl
  obtain ⟨x, hx, hmanual, _⟩ := manual_iff.mp h
  obtain rfl := Option.some.inj (hx.symm.trans hd)
  exact nomatch hmanual.symm.trans hmode

/-- A delivery that waits to be asked for is a manual one. -/
theorem Manual.of_awaits {c : Channel} {d n : Nat} {delivery : Delivery}
    (hd : c.deliveries[d]? = some delivery) (h : delivery.Awaits n) : c.Manual d n :=
  manual_iff.mpr ⟨delivery, hd, h.2.1, h.1⟩

/-- A step leaves the labels as they are, or adds that of a message that arrives. -/
theorem labels_step (m : Machine) (e : Event) :
    (m.step e).1.channel.labels = m.channel.labels ∨
      ∃ l, e.label? = some l ∧ (m.step e).1.channel.labels = m.channel.labels ++ [l] := by
  have h := m.step_transition e
  generalize (m.step e).1 = m' at h
  cases h with
  | arrived => exact .inr ⟨_, rfl, labels_receive ..⟩
  | idle | turned | passedOn | closing | aborted | refused | closeFailed | closeDone | answered |
    concluded | lost => exact .inl rfl
  | settledAlone | claimed => exact .inl (labels_claimed ..)
  | accepted => exact .inl (labels_release ..)
  | restored => exact .inl (labels_restore ..)

variable {m : Machine} {e : Event} {d n : Nat}

/-- A delivery that has to be settled stays one. -/
theorem Manual.step (h : m.channel.Manual d n) (e : Event) : (m.step e).1.channel.Manual d n := by
  obtain ⟨message, hd, htag⟩ := h
  refine ⟨message, ?_, htag⟩
  rcases labels_step m e with heq | ⟨l, _, heq⟩
  · rw [heq, hd]
  · rw [heq, List.getElem?_append_left (List.getElem?_eq_some_iff.mp hd).1, hd]

/-- A delivery that has to be settled is either one of before, or that of a message that arrives. -/
theorem Manual.of_step (h : (m.step e).1.channel.Manual d n) :
    m.channel.Manual d n ∨ d = m.channel.deliveries.length ∧
      ∃ message, e.label? = some (message, .manual) ∧ message.tag = .assigned n := by
  obtain ⟨message, hd, htag⟩ := h
  rcases labels_step m e with heq | ⟨l, hl, heq⟩
  · exact .inl ⟨message, heq ▸ hd, htag⟩
  · rw [heq, List.getElem?_append] at hd
    split at hd
    · exact .inl ⟨message, hd, htag⟩
    · rename_i hlt
      obtain ⟨hindex, hmessage⟩ := List.getElem?_eq_some_iff.mp hd
      rw [List.getElem_singleton] at hmessage
      rw [List.length_singleton] at hindex
      have hlength : m.channel.labels.length = m.channel.deliveries.length := List.length_map ..
      exact .inr ⟨by omega, message, by rw [hl, hmessage], htag⟩

/-- A terminal state changes only when the delivery hears that its settlement is refused. -/
theorem state?_step_of_ne {state : DeliveryState} (hd : m.channel.state? d = some state)
    (hstate : state ≠ .unacknowledged) (e : Event) :
    (m.step e).1.channel.state? d = some state ∨
      ∃ c s multiple requeue error, e = .heard c.id ∧ m.call? c.id = some c ∧
        c.request = .settle d s multiple requeue ∧ c.phase = .decided (.refused error) := by
  have hwaits {d' : Nat} {delivery : Delivery} (hd' : m.channel.deliveries[d']? = some delivery)
      (hunack : delivery.state = .unacknowledged) : d' ≠ d := by
    rintro rfl
    rw [state?, hd', Option.map_some, hunack] at hd
    exact hstate (Option.some.inj hd).symm
  have h := m.step_transition e
  generalize (m.step e).1 = m' at h
  cases h with
  | idle | turned | passedOn | closing | aborted | refused | closeFailed | closeDone | answered |
    concluded | lost => exact .inl hd
  | arrived =>
    obtain ⟨delivery, hd', _⟩ := Option.map_eq_some_iff.mp hd
    exact .inl ((state?_receive_of_lt (List.getElem?_eq_some_iff.mp hd').1).trans hd)
  | settledAlone hd' _ hunack =>
    exact .inl ((state?_modifyDelivery_of_ne (hwaits hd' hunack)).trans hd)
  | claimed hd' hawaits =>
    exact .inl ((state?_modifyDelivery_of_ne (hwaits hd' hawaits.2.2)).trans hd)
  | accepted => exact .inl (state?_release_of_ne hd hstate)
  | @restored c d' s multiple requeue error hcall hrequest hphase =>
    by_cases hne : d' = d
    · subst hne
      exact .inr ⟨c, s, multiple, requeue, error, rfl, hcall, hrequest, hphase⟩
    · exact .inl ((state?_modifyDelivery_of_ne hne).trans hd)

/-- What becomes of the ledger of `m` with an event that leads to the channel `c'`. -/
inductive LedgerChange (m : Machine) (e : Event) (c' : Channel) : Prop where
  /-- It stays as it is. -/
  | same (h : c'.pending = m.channel.pending)
  /-- It is gone, with the channel. -/
  | ended (hclosed : c'.isOpen = false) (h : c'.pending = [])
  /-- A settlement is accepted. -/
  | settled {c : Call} {d : Nat} {s : Settlement} {multiple requeue reply : Value} {wasOpen : Bool}
      (he : e = .answered c.id (.replied reply)) (hcall : m.call? c.id = some c)
      (hrequest : c.request = .settle d s multiple requeue) (hphase : c.phase = .asked wasOpen)
      (h : c' = (m.channel.release c.tag s multiple.isTruthy).1)
  /-- A message comes on it. -/
  | tracked {message : Message} (hl : e.label? = some (message, .manual))
      (h : c' = m.channel.receive message .manual)

/-- A step changes the ledger in one of these ways. -/
theorem ledgerChange_step (m : Machine) (e : Event) : LedgerChange m e (m.step e).1.channel := by
  have h := m.step_transition e
  generalize (m.step e).1 = m' at h
  cases h with
  | idle | turned | settledAlone | claimed | passedOn | closing | refused | closeFailed | answered |
    restored | concluded => exact .same rfl
  | aborted | closeDone | lost => exact .ended rfl rfl
  | accepted hcall hrequest hphase => exact .settled rfl hcall hrequest hphase rfl
  | @arrived consumer mode message =>
    cases mode with
    | auto => exact .same rfl
    | manual => exact .tracked rfl rfl

/-- The tags on the ledger are those of messages that arrived. -/
theorem tag_of_mem_pending_step {t : Tag} (ht : (t, d) ∈ (m.step e).1.channel.pending) :
    (∃ d', (t, d') ∈ m.channel.pending) ∨ ∃ l, e.label? = some l ∧ t = l.1.tag := by
  cases ledgerChange_step m e with
  | same h => exact .inl ⟨d, h ▸ ht⟩
  | ended _ h =>
    rw [h] at ht
    exact nomatch ht
  | settled _ _ _ _ h =>
    rw [h, pending_release] at ht
    exact .inl ⟨d, TagMap.mem_of_mem_kept ht⟩
  | tracked hl h =>
    rw [h] at ht
    rcases TagMap.mem_track ht with htag | hold
    · exact .inr ⟨_, hl, htag⟩
    · exact .inl hold

/-- An entry stays on the ledger of a channel that stays open, unless its place is taken or a
settlement is accepted. -/
theorem mem_pending_step_of_mem {entry : Tag × Nat} (hentry : entry ∈ m.channel.pending)
    (hopen : (m.step e).1.channel.isOpen = true)
    (hplace : ∀ l, e.label? = some l → entry.1.same l.1.tag = false)
    (hsettle : ∀ c ∈ m.calls, c.request.delivery? ≠ none → e.call? ≠ some c.id) :
    entry ∈ (m.step e).1.channel.pending := by
  cases ledgerChange_step m e with
  | same h => exact h ▸ hentry
  | ended hclosed => exact nomatch hopen.symm.trans hclosed
  | settled he hcall hrequest =>
    have hsettles := Request.delivery?_of_settle hrequest
    refine absurd (congrArg Event.call? he) (hsettle _ (Machine.mem_of_call? hcall).1 ?_)
    rw [hsettles]
    exact nofun
  | tracked hl h =>
    rw [h]
    exact TagMap.mem_track_of_mem hentry (hplace _ hl)

/-- The delivery of a message that arrives has to be settled, under the tag that it came with. -/
theorem manual_receive {c : Channel} {message : Message} (htag : message.tag = .assigned n) :
    (c.receive message .manual).Manual c.deliveries.length n := by
  refine ⟨message, ?_, htag⟩
  rw [labels_receive, List.getElem?_append_right (by simp [labels])]
  simp [labels]

namespace Machine

/-- A delivery that hears of a refusal is given back, and the settlement is over. -/
theorem step_heard_of_refused {c : Call} {s : Settlement} {multiple requeue : Value}
    {error : OperationError} (hcall : m.call? c.id = some c)
    (hrequest : c.request = .settle d s multiple requeue)
    (hphase : c.phase = .decided (.refused error)) :
    m.step (.heard c.id) =
      ((m.withChannel (m.channel.modifyDelivery d Delivery.restore)).drop c.id,
        [.finish c.id (.failed error)]) := by
  simp only [step, hcall, hear, hphase, hrequest]
  rfl

/-- A call after a step is one of before, or a new one; a new settlement claims its delivery. -/
theorem origin_step {c : Call} (hc : c ∈ (m.step e).1.calls) :
    (∃ c₀ ∈ m.calls, c₀.id = c.id ∧ c₀.request = c.request ∧ c₀.tag = c.tag) ∨
    (e.issued? = some c.id ∧ c.request.delivery? = none) ∨
    ∃ d s multiple requeue delivery n, e = .issue c.id (.settle d s multiple requeue) ∧
      m.channel.deliveries[d]? = some delivery ∧ delivery.Awaits n ∧
      c = m.settleCall c.id d s multiple requeue n ∧ (m.step e).1.channel = m.claimed d s := by
  have h := m.step_transition e
  generalize (m.step e).1 = m' at h hc
  have hold {m₀ : Machine} (hcalls : m₀.calls = m.calls) (hc : c ∈ m₀.calls) :
      ∃ c₀ ∈ m.calls, c₀.id = c.id ∧ c₀.request = c.request ∧ c₀.tag = c.tag :=
    ⟨c, hcalls ▸ hc, rfl, rfl, rfl⟩
  have hdecided {c' : Call} {v : Verdict} (hcall : m.call? c'.id = some c')
      (hc : c ∈ (m.decided c' v).calls) :
      ∃ c₀ ∈ m.calls, c₀.id = c.id ∧ c₀.request = c.request ∧ c₀.tag = c.tag := by
    rcases mem_calls_decided.mp hc with ⟨hc, _⟩ | rfl
    · exact ⟨c, hc, rfl, rfl, rfl⟩
    · exact ⟨c', (mem_of_call? hcall).1, rfl, rfl, rfl⟩
  cases h with
  | idle | turned | arrived | settledAlone | lost => exact .inl (hold rfl hc)
  | @claimed call d n s multiple requeue delivery hd hawaits =>
    rcases mem_calls_push.mp hc with hc | rfl
    · exact .inl (hold rfl hc)
    · exact .inr (.inr ⟨d, s, multiple, requeue, delivery, n, rfl, hd, hawaits, rfl, rfl⟩)
  | passedOn _ hsettle =>
    rcases mem_calls_push.mp hc with hc | rfl
    · exact .inl (hold rfl hc)
    · exact .inr (.inl ⟨rfl, hsettle⟩)
  | closing | aborted =>
    rw [calls_withChannel] at hc
    rcases mem_calls_push.mp hc with hc | rfl
    · exact .inl (hold rfl hc)
    · exact .inr (.inl ⟨rfl, rfl⟩)
  | accepted hcall => exact .inl (hdecided hcall hc)
  | refused hcall => exact .inl (hdecided hcall hc)
  | closeFailed | closeDone | answered | restored | concluded =>
    exact .inl (hold rfl (mem_calls_drop.mp hc).1)

/-- If one call of a kind is in flight at most, and no settlement of that kind is issued while one
is, one is in flight at most after a step. -/
theorem eq_of_mem_calls_step {P : Request → Prop} (hsettles : ∀ r, P r → r.delivery? ≠ none)
    (hunique : (m.step e).1.UniqueIds)
    (h : ∀ c ∈ m.calls, ∀ c' ∈ m.calls, P c.request → P c'.request → c = c')
    (hnew : ∀ call d s multiple requeue delivery n, e = .issue call (.settle d s multiple requeue) →
      m.channel.deliveries[d]? = some delivery → delivery.Awaits n →
      P (m.settleCall call d s multiple requeue n).request → ∀ c ∈ m.calls, ¬P c.request)
    {c c' : Call} (hc : c ∈ (m.step e).1.calls) (hc' : c' ∈ (m.step e).1.calls)
    (hp : P c.request) (hp' : P c'.request) : c = c' := by
  have hkind {c : Call} (hc : c ∈ (m.step e).1.calls) (hp : P c.request) :
      (∃ c₀ ∈ m.calls, c₀.id = c.id ∧ P c₀.request) ∨
        (e.issued? = some c.id ∧ ∀ c₀ ∈ m.calls, ¬P c₀.request) := by
    rcases origin_step hc with ⟨c₀, hc₀, hid, hrequest, _⟩ | ⟨_, hnone⟩ |
      ⟨d, s, multiple, requeue, delivery, n, he, hd, hawaits, hcall, _⟩
    · exact .inl ⟨c₀, hc₀, hid, hrequest ▸ hp⟩
    · exact absurd hnone (hsettles _ hp)
    · refine .inr ⟨by rw [he]; rfl, hnew _ _ _ _ _ _ _ he hd hawaits ?_⟩
      rw [← hcall]
      exact hp
  rcases hkind hc hp with ⟨c₀, hc₀, hid, hp₀⟩ | ⟨hissued, hnone⟩
  · rcases hkind hc' hp' with ⟨c₀', hc₀', hid', hp₀'⟩ | ⟨_, hnone⟩
    · have hsame := h c₀ hc₀ c₀' hc₀' hp₀ hp₀'
      exact hunique.eq hc hc' (by rw [← hid, ← hid', hsame])
    · exact absurd hp₀ (hnone c₀ hc₀)
  · rcases hkind hc' hp' with ⟨c₀', hc₀', _, hp₀'⟩ | ⟨hissued', _⟩
    · exact absurd hp₀' (hnone c₀' hc₀')
    · exact hunique.eq hc hc' (Option.some.inj (hissued.symm.trans hissued'))

end Machine

end Channel

end Amqp
