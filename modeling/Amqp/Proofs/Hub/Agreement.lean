import Amqp.Proofs.Broker.Runs
import Amqp.Proofs.Broker.Shifts
import Amqp.Proofs.Hub.Links

/-!
# When channels and the broker agree

Whenever all that was asked for is answered, each channel of a hub says the same as the broker's end
of it: whether it is open, and which tags wait for a settlement. Every run can go on to such a
moment. The exception is a channel that was being opened when the connection dropped: nobody heard
of its end, and it counts as open until someone aborts it. The tags of a channel are handed out in
order, without a gap, so that a message never comes under a tag that is still on a ledger.
-/

namespace Amqp.Hub

open Channel (Machine)
open Broker (Handover Shifts Tally Told)

/-- Everyone who asked for a channel, and all channels, have heard what came of it. -/
def IsIdle (h : Hub) : Prop := h.openings = [] ∧ ∀ l ∈ h.lines, l.outcomes = []

instance (h : Hub) : Decidable h.IsIdle :=
  decidable_of_iff (h.openings.isEmpty = true ∧ ∀ l ∈ h.lines, l.outcomes.isEmpty = true) <|
    and_congr List.isEmpty_iff (forall₂_congr fun _ _ => List.isEmpty_iff)

/-- A channel says the same as the broker's end of it. -/
structure Agree (m : Machine) (c : Broker.Channel) : Prop where
  closed : m.channel.isOpen = false ↔ c.closed = true
  /-- The tags on the ledger of an open channel are those that the broker waits for. -/
  pending : m.channel.isOpen = true →
    m.channel.pending.map (·.1) = c.unacked.map (.assigned ·.1)

/-- The tag of a message that is handed to the channel. -/
def handedTag? (ch : Nat) : Broker.Effect → Option Tag
  | .deliver ch' _ m => if ch' = ch then some m.tag else none
  | _ => none

/-- The tags of the messages that are handed to the channel, in order. -/
def handed (ch : Nat) (effects : List Broker.Effect) : List Tag := effects.filterMap (handedTag? ch)

/-- Every message that is handed out with the event comes under a tag that is not on the ledger of
its channel by then. -/
def TracksAnew (h : Hub) (e : Event) : Prop :=
  ∀ x ch number m y, (h.response e).effects = x ++ .deliver ch number m :: y →
    ∀ l, (x.foldl hear { h.started e with broker := (h.response e).broker }).lines[ch]? = some l →
      l.machine.channel.pending.entry? m.tag = none

variable {h : Hub} {e : Event} {ch ch' call number : Nat} {l : Line} {t : Tally}
  {ts ts₁ ts₂ ts₃ : List Tally} {effects effects' : List Broker.Effect} {r : Channel.Request}
  {c : Channel.Call} {p : Channel.Primitive} {known : Nat → Nat → AckMode → Prop}
  {missed : List Nat}

/-! ## Idle channels -/

/-- A channel that has nothing to hear of says what its tally says. -/
theorem Paired.agree {c : Broker.Channel} (h : Paired l c.tally) (hidle : l.outcomes = []) :
    Agree l.machine c := by
  have hending : ¬l.Ending := by
    rintro ⟨call, reply, ho, _⟩
    rw [hidle] at ho
    cases ho
  have hclosed : l.machine.channel.isOpen = false ↔ c.closed = true := by
    refine ⟨h.closed, fun hclosed => ?_⟩
    by_contra hopen
    exact hending (h.ending hclosed (Bool.not_eq_false _ ▸ hopen))
  refine ⟨hclosed, fun hopen => ?_⟩
  have hgranted : l.granted = [] := by
    rw [Line.granted, hidle, List.filterMap_nil]
  have hall : l.outstanding = l.machine.channel.pending.map (·.1) := by
    rw [Line.outstanding, hgranted]
    exact List.filter_eq_self.mpr fun _ _ => rfl
  have hstill : c.closed = false := by
    rw [← Bool.not_eq_true, ← hclosed, hopen]
    exact Bool.noConfusion
  rw [← hall, h.ledger hstill, Broker.Channel.tally, List.map_map]
  rfl

/-- A channel that missed its end says what its tally says once it is closed too. -/
theorem Severed.agree_iff {c : Broker.Channel} (h : Severed l c.tally) :
    Agree l.machine c ↔ l.machine.channel.isOpen = false := by
  have hclosed : c.closed = true := congrArg Tally.closed h.ended
  refine ⟨fun hagree => hagree.closed.mpr hclosed, fun hshut => ?_⟩
  refine ⟨⟨fun _ => hclosed, fun _ => hshut⟩, fun hopen => ?_⟩
  rw [hshut] at hopen
  cases hopen

/-- Nothing waits on either side of a channel that missed its end. -/
theorem Severed.tags_eq {c : Broker.Channel} (h : Severed l c.tally) :
    l.machine.channel.pending.map (·.1) = c.unacked.map (.assigned ·.1) := by
  have htags : c.unacked.map (·.1) = [] := congrArg Tally.tags h.ended
  rw [h.pending_eq_nil, List.map_eq_nil_iff.mp htags]
  rfl

/-- While everything is answered, a channel agrees with the broker unless it missed its end, and the
tags on its ledger are right even then. -/
theorem Linked.agree_iff (hlinked : h.Linked missed) (hidle : h.IsIdle) {c : Broker.Channel}
    (hl : h.lines[ch]? = some l) (hc : h.broker.channels[ch]? = some c) :
    (Agree l.machine c ↔ (ch ∈ missed → l.machine.channel.isOpen = false)) ∧
      (l.machine.channel.isOpen = true →
        l.machine.channel.pending.map (·.1) = c.unacked.map (.assigned ·.1)) := by
  cases hlinked.ties ch l _ hl (Broker.getElem?_tallies hc) with
  | paired hm hpaired =>
    have hagree := hpaired.agree (hidle.2 l (List.mem_of_getElem? hl))
    exact ⟨iff_of_true hagree fun hmem => absurd hmem hm, hagree.pending⟩
  | severed hm hsevered =>
    refine ⟨hsevered.agree_iff.trans ?_, fun _ => hsevered.tags_eq⟩
    exact ⟨fun hclosed _ => hclosed, fun hclosed => hclosed hm⟩

/-- While nobody waits for a channel, the broker has made an end for each channel and no other. -/
theorem Linked.length_eq (hlinked : h.Linked missed) (hidle : h.IsIdle) :
    h.lines.length = h.broker.channels.length := by
  have hcounted := hlinked.counted
  rw [hidle.1, Broker.tallies, List.length_map] at hcounted
  exact hcounted.symm

/-- While no channel has missed its end, all of them agree with the broker. -/
theorem Linked.agree (hlinked : h.Linked []) (hidle : h.IsIdle) :
    List.Forall₂ Agree (h.lines.map (·.machine)) h.broker.channels := by
  rw [List.forall₂_map_left_iff, List.forall₂_iff_get]
  refine ⟨hlinked.length_eq hidle, fun ch hl hc => ?_⟩
  have hiff := hlinked.agree_iff hidle (List.getElem?_eq_getElem hl) (List.getElem?_eq_getElem hc)
  exact hiff.1.mpr fun hm => absurd hm List.not_mem_nil

/-- How much nobody has heard of. -/
def waiting (h : Hub) : Nat := h.openings.length + (h.lines.flatMap (·.outcomes)).length

/-- Lists together are shorter where one of them is. -/
theorem length_flatMap_modify_lt {α β : Type} {f : α → α} {g : α → List β} {xs : List α} {i : Nat}
    {x : α} (hx : xs[i]? = some x) (hlt : (g (f x)).length < (g x).length) :
    ((xs.modify i f).flatMap g).length < (xs.flatMap g).length := by
  induction xs generalizing i with
  | nil => cases hx
  | cons y xs ih =>
    cases i with
    | zero =>
      obtain rfl := Option.some.inj hx
      simpa using hlt
    | succ i => simpa using ih hx

/-- Whoever waits for a channel can hear of it next. -/
theorem waiting_step_opened_lt (hopenings : h.openings ≠ []) :
    (h.step .opened).waiting < h.waiting := by
  have henrolls := h.enrolls_enroll
  rw [step_opened]
  generalize h.enroll = h' at henrolls ⊢
  cases henrolls with
  | nobody hnone => exact absurd hnone hopenings
  | opened hsome | refused hsome => simp [waiting, hsome]

/-- Whatever a channel has not heard of it can hear of next. -/
theorem waiting_step_lt (hl : h.lines[ch]? = some l) {o : Nat × Channel.Outcome}
    (ho : o ∈ l.outcomes) : (h.step (.answered ch o.1)).waiting < h.waiting := by
  rw [step_answered]
  refine Nat.add_lt_add_left (length_flatMap_modify_lt hl ?_) _
  cases hfind : l.outcomes.find? (·.1 == o.1) with
  | none => exact absurd (List.find?_eq_none.mp hfind o ho) (by simp)
  | some o' =>
    simp only [Line.answer, hfind]
    exact List.length_filter_lt_length_iff_exists.mpr ⟨o, ho, by simp⟩

/-- An answer to a call, or to an attempt to open a channel. -/
def Event.IsAnswer : Event → Prop
  | .opened | .answered .. => True
  | _ => False

/-- A run can go on until nobody waits, with answers alone. -/
theorem exists_idle (events : List Event) :
    ∃ v, (∀ e ∈ v, e.IsAnswer) ∧ (reached (events ++ v)).IsIdle := by
  induction hn : (reached events).waiting using Nat.strongRecOn generalizing events with
  | ind n ih =>
    have hnext {e : Event} (he : e.IsAnswer)
        (hless : ((reached events).step e).waiting < (reached events).waiting) :
        ∃ v, (∀ e ∈ v, e.IsAnswer) ∧ (reached (events ++ v)).IsIdle := by
      rw [← reached_concat, hn] at hless
      obtain ⟨v, hv, hend⟩ := ih _ hless (events ++ [e]) rfl
      refine ⟨e :: v, List.forall_mem_cons.mpr ⟨he, hv⟩, ?_⟩
      rwa [List.append_assoc] at hend
    by_cases hopenings : (reached events).openings = []
    · by_cases hlines : ∀ l ∈ (reached events).lines, l.outcomes = []
      · exact ⟨[], List.forall_mem_nil _, by rw [List.append_nil]; exact ⟨hopenings, hlines⟩⟩
      · obtain ⟨l, hmem, hne⟩ : ∃ l ∈ (reached events).lines, l.outcomes ≠ [] := by
          simpa only [not_forall, exists_prop] using hlines
        obtain ⟨ch, hl⟩ := List.getElem?_of_mem hmem
        obtain ⟨o, ho⟩ := List.exists_mem_of_ne_nil _ hne
        exact hnext (e := .answered ch o.1) trivial (waiting_step_lt hl ho)
    · exact hnext (e := .opened) trivial (waiting_step_opened_lt hopenings)

/-! ## The tags that the broker hands out -/

/-- The tags that are handed to a channel are those of the deliveries. -/
theorem handed_filter_isDelivery (ch : Nat) (effects : List Broker.Effect) :
    handed ch (effects.filter Broker.Effect.isDelivery) = handed ch effects := by
  rw [handed, handed, List.filterMap_filter]
  refine List.filterMap_congr fun f _ => ?_
  cases f <;> rfl

theorem handed_handovers (ch : Nat) (xs : List Handover) :
    handed ch (xs.map Handover.effect) =
      ((xs.filter (·.consumer.channel == ch)).map (·.tag)).map .assigned := by
  induction xs with
  | nil => rfl
  | cons x xs ih =>
    have hcons : handed ch ((x :: xs).map Handover.effect) =
        handed ch [x.effect] ++ handed ch (xs.map Handover.effect) :=
      List.filterMap_append (l := [x.effect])
    rw [hcons, ih]
    by_cases hch : x.consumer.channel = ch
    · simp [handed, handedTag?, Handover.effect, Broker.Copy.message, hch]
    · simp [handed, handedTag?, Handover.effect, hch]

/-- What the broker does with an event is a chain of shifts, whose handovers are what it tells. -/
theorem exists_shifts_response (hkeyed : h.broker.Keyed) (e : Event) :
    ∃ s, Shifts h.broker [] (h.response e).broker [] s ∧
      (h.response e).effects.filter Broker.Effect.isDelivery = s.handed.map Handover.effect := by
  rw [response]
  cases h.forwarded? e with
  | none => exact ⟨{}, .refl, rfl⟩
  | some f => exact ⟨_, Broker.shifts_step hkeyed f, Broker.deliveries_step _ f⟩

/-- What the broker does in a run is a chain of shifts as well. -/
theorem exists_shifts (events : List Event) :
    ∃ s, Shifts {} [] (reached events).broker [] s ∧
      (emitted events).filter Broker.Effect.isDelivery = s.handed.map Handover.effect := by
  induction events using List.reverseRecOn with
  | nil => exact ⟨{}, .refl, rfl⟩
  | append_singleton u e ih =>
    obtain ⟨s, hshifts, hhanded⟩ := ih
    obtain ⟨t, hresponse, htold⟩ :=
      exists_shifts_response (Broker.keyed_empty.shifts hshifts) e
    obtain ⟨n, hbroker⟩ := broker_step (reached u) e
    rw [emitted_concat, reached_concat, List.filter_append, hhanded, htold, hbroker]
    refine ⟨s ++ t, hshifts.trans ?_, by rw [Broker.Books.handed_append, List.map_append]⟩
    exact hresponse.trans_nil (Broker.Shift.shifts (.move (.idle rfl rfl rfl rfl)))

/-- The tags of a channel are handed out in order, whatever is asked for. -/
theorem exists_handed_eq (ch : Nat) (events : List Event) :
    ∃ n, handed ch (emitted events) = (List.range' 1 n).map .assigned := by
  obtain ⟨s, hshifts, hhanded⟩ := exists_shifts events
  obtain ⟨n, _, htags⟩ := hshifts.tags ch
  refine ⟨n, ?_⟩
  rw [← handed_filter_isDelivery, hhanded, handed_handovers, htags]
  rfl

/-! ## Ledgers -/

/-- What is told is told one after the other. -/
theorem exists_told_of_append {x y : List Broker.Effect} (h : Told known ts₁ (x ++ y) ts₂) :
    ∃ ts, Told known ts₁ x ts ∧ Told known ts y ts₂ := by
  induction x generalizing ts₁ with
  | nil => exact ⟨ts₁, .nothing, h⟩
  | cons f x ih =>
    cases h with
    | handed ht hknown htag h =>
      obtain ⟨ts, hx, hy⟩ := ih h
      exact ⟨ts, .handed ht hknown htag hx, hy⟩
    | ended ht hopen h =>
      obtain ⟨ts, hx, hy⟩ := ih h
      exact ⟨ts, .ended ht hopen hx, hy⟩

/-- The next tag of a channel is not on its ledger. -/
theorem Paired.entry?_next (h : Paired l t) :
    l.machine.channel.pending.entry? (.assigned t.next) = none := by
  rw [TagMap.entry?, Option.map_eq_none_iff, List.find?_eq_none]
  rintro ⟨tag, d⟩ hmem hsame
  obtain ⟨n, rfl, hmanual⟩ := h.sound.machine.ledger tag d hmem
  have hlt := h.sound.below d n hmanual
  rw [Tag.same_assigned, beq_iff_eq] at hsame
  omega

/-- Channels that keep up with what is told hear of no tag that is on their ledgers. -/
theorem entry?_of_told {x y : List Broker.Effect} {m : Message} (hties : Ties missed h.lines ts₁)
    (htold : Told known ts₁ (x ++ .deliver ch number m :: y) ts₂)
    (hknown : ∀ ch number mode, known ch number mode → ch ∉ missed ∧ h.mode? number = some mode)
    (hl : (x.foldl hear h).lines[ch]? = some l) :
    l.machine.channel.pending.entry? m.tag = none := by
  obtain ⟨ts, hx, hy⟩ := exists_told_of_append htold
  cases hy with
  | @handed _ _ t _ _ mode _ _ ht hconsumer htag _ =>
    cases hties.hear hx hknown ch l t hl ht with
    | paired _ hpaired =>
      rw [htag]
      exact hpaired.entry?_next
    | severed hm _ => exact absurd hm (hknown ch number mode hconsumer).1

/-- Nothing is handed out in other events. -/
theorem deliveries_response_of_ne (h : Hub) (he : e ≠ .serve) :
    (h.response e).effects.filter Broker.Effect.isDelivery = [] := by
  rw [response]
  cases hforwarded : h.forwarded? e with
  | none => rfl
  | some f =>
    refine Broker.deliveries_step_of_ne h.broker ?_
    rintro rfl
    cases forwards_of_eq_some hforwarded with
    | serve => exact he rfl

/-- What is handed out with a step comes under tags that are not on the ledgers. -/
theorem Linked.tracksAnew (hlinked : h.Linked missed) (e : Event) : h.TracksAnew e := by
  intro x ch number m y heffects l hl
  by_cases hserve : e = .serve
  · subst hserve
    have hmode : ({ h.started .serve with broker := (h.response .serve).broker } : Hub).mode? =
        h.mode? := mode?_congr (List.append_nil _)
    have htold : Told (h.Attends missed) h.broker.tallies (h.response .serve).effects _ :=
      Broker.told_serve hlinked.serves
    rw [heffects] at htold
    refine entry?_of_told (h := { h.started .serve with broker := (h.response .serve).broker })
      hlinked.ties htold (fun ch number mode hattends => ?_) hl
    exact ⟨hattends.2.1, hmode ▸ hattends.2.2⟩
  · have hmem : Broker.Effect.deliver ch number m ∈ (h.response e).effects := by
      rw [heffects]
      exact List.mem_append_right _ (List.mem_cons_self ..)
    have hnone := deliveries_response_of_ne h hserve
    exact absurd rfl (List.filter_eq_nil_iff.mp hnone _ hmem)

/-! ## Agreement -/

/-- In a run of requests under numbers of their own, whatever handlers do in between, whenever
channels are opened and whenever the connection drops: whenever nobody waits for an answer, the
broker has made an end for each channel and no other; a channel is closed exactly if the broker's
end of it is, and the ledger of an open one has the tags that wait there, unless the connection
dropped while the channel was being opened. Then it is open over an end that is closed, until
someone aborts it, and nothing waits on either side. The run can always go on to such a moment. The
tags of each channel are 1, 2, 3 and so on, over all its consumers, and none of them is on the
ledger when it is handed out. Whether consumer tags are reused does not matter; the parameters of a
close need texts, or the broker would not end the channel. -/
theorem channels_agree_iff_not_missed {events : List Event} (hnumbered : Numbered events)
    (hworded : ∀ e ∈ events, e.IsWorded) :
    ((reached events).IsIdle →
      (reached events).lines.length = (reached events).broker.channels.length ∧
      ∀ ch l c, (reached events).lines[ch]? = some l →
        (reached events).broker.channels[ch]? = some c →
        (Agree l.machine c ↔ (ch ∈ missedEnds events → l.machine.channel.isOpen = false)) ∧
          (l.machine.channel.isOpen = true →
            l.machine.channel.pending.map (·.1) = c.unacked.map (.assigned ·.1))) ∧
    (∃ v, (∀ e ∈ v, e.IsAnswer) ∧ (reached (events ++ v)).IsIdle) ∧
    (∀ ch, ∃ n, handed ch (emitted events) = (List.range' 1 n).map .assigned) ∧
    ∀ e, (reached events).TracksAnew e := by
  have hlinked := linked_reached hnumbered hworded
  refine ⟨fun hidle => ⟨hlinked.length_eq hidle, fun ch l c hl hc => ?_⟩, exists_idle events,
    fun ch => exists_handed_eq ch events, hlinked.tracksAnew⟩
  exact hlinked.agree_iff hidle hl hc

/-- The second of three channels is being opened when the connection drops. The third one has a
consumer that is handed a message. -/
def droppedOpening : List Event :=
  [.opening, .opened, .opening, .disconnect (.error "Error" "gone" []), .opened,
    .opening, .opened,
    .issue 2 0 (.declareQueue (.table [("name", .text "jobs"), ("autoDelete", .bool false)])),
    .answered 2 0,
    .issue 2 1 (.consume (.text "jobs") (.table [])), .answered 2 1,
    .issue 2 2 (.publish (.text "") (.text "jobs") [1] (.table [])), .answered 2 2,
    .serve, .turn 2]

/-- In that run the first channel is closed on both sides in the end, the second one is open over an
end that is closed, and the third one has its message to settle on both sides. -/
theorem channels_agree_iff_not_missed_droppedOpening :
    Numbered droppedOpening ∧ (∀ e ∈ droppedOpening, e.IsWorded) ∧
      (reached droppedOpening).IsIdle ∧ missedEnds droppedOpening = [1] ∧
      (reached droppedOpening).lines.map (·.machine.channel.isOpen) = [false, true, true] ∧
      (reached droppedOpening).broker.channels.map Broker.Channel.tally =
        [⟨true, 1, []⟩, ⟨true, 1, []⟩, ⟨false, 2, [1]⟩] ∧
      (∀ ch l c, (reached droppedOpening).lines[ch]? = some l →
        (reached droppedOpening).broker.channels[ch]? = some c →
        (Agree l.machine c ↔ (ch ∈ [1] → l.machine.channel.isOpen = false))) ∧
      handed 2 (emitted droppedOpening) = (List.range' 1 1).map .assigned := by
  have hnumbered : Numbered droppedOpening := by decide
  have hworded : ∀ e ∈ droppedOpening, e.IsWorded := by
    simp [droppedOpening, Event.IsWorded]
  have hidle : (reached droppedOpening).IsIdle := by decide
  have hmissed : missedEnds droppedOpening = [1] := rfl
  obtain ⟨_, hagree⟩ := (channels_agree_iff_not_missed hnumbered hworded).1 hidle
  refine ⟨hnumbered, hworded, hidle, hmissed, rfl, rfl, fun ch l c hl hc => ?_, rfl⟩
  rw [← hmissed]
  exact (hagree ch l c hl hc).1

/-- A channel that is open though the broker's end of it is closed, with nothing left to hear: the
connection dropped when the broker had made its end and the channel was not there yet. -/
theorem exists_channels_disagree :
    ∃ events l c, Numbered events ∧ (∀ e ∈ events, e.IsWorded) ∧ (reached events).IsIdle ∧
      (reached events).lines = [l] ∧ (reached events).broker.channels = [c] ∧
      l.machine.channel.isOpen = true ∧ c.closed = true ∧ ¬Agree l.machine c := by
  let events : List Event := [.opening, .disconnect (.error "Error" "gone" []), .opened]
  refine ⟨events, _, _, by decide, by simp [events, Event.IsWorded], by decide, rfl, rfl, rfl, rfl,
    fun hagree => ?_⟩
  exact absurd (hagree.closed.mpr rfl) (by decide)

end Amqp.Hub
