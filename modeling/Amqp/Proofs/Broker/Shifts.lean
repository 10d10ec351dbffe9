import Amqp.Proofs.Broker.Copies
import Amqp.Proofs.Broker.Runs

/-!
# Every run is a chain of shifts

Moves keep consumers attended, and so the steps that are chains of moves start no consumer under a
tag or a number that its channel has in use. Where copies are does not depend on that. A shift is a
move, or a change to consumers alone, and every run of a broker is a chain of shifts. From that:
each copy is in one place, what waits on a channel waits in the order of its tags, and the tags of a
channel are handed out in order.
-/

namespace Amqp.Broker

open Books (retiring handing)

/-- A move, or a change that leaves all copies and all tags where they are. -/
inductive Shift : Broker → List Unacked → Broker → List Unacked → Books → Prop where
  | move {b b' : Broker} {hand hand' : List Unacked} {s : Books} (h : Move b hand b' hand' s) :
      Shift b hand b' hand' s
  /-- A channel changes in something else than its copies and its next tag. -/
  | channel {b : Broker} {hand : List Unacked} {ch : Nat} {f : Channel → Channel}
      (hf : ∀ c, (f c).nextTag = c.nextTag ∧ (f c).unacked = c.unacked) :
      Shift b hand (b.modifyChannel ch f) hand {}
  /-- A queue gets a consumer. -/
  | joined {b : Broker} {hand : List Unacked} {q : Queue} {s : Consumer} (hq : q ∈ b.queues) :
      Shift b hand (b.modifyQueue q.id fun q => { q with consumers := q.consumers ++ [s] }) hand {}

/-- Several shifts, with all their books. -/
inductive Shifts (b₁ : Broker) (hand₁ : List Unacked) : Broker → List Unacked → Books → Prop where
  | refl : Shifts b₁ hand₁ b₁ hand₁ {}
  | next {b₂ b₃ : Broker} {hand₂ hand₃ : List Unacked} {s t : Books}
      (h : Shifts b₁ hand₁ b₂ hand₂ s) (hshift : Shift b₂ hand₂ b₃ hand₃ t) :
      Shifts b₁ hand₁ b₃ hand₃ (s ++ t)

variable {b b' b₁ b₂ b₃ : Broker} {hand hand' hand₁ hand₂ hand₃ : List Unacked} {s t : Books}
  {ch : Nat} {f : Channel → Channel} {q : Queue} {c : Channel}

/-- One shift alone. -/
theorem Shift.shifts (h : Shift b₁ hand₁ b₂ hand₂ t) : Shifts b₁ hand₁ b₂ hand₂ t :=
  Shifts.refl.next h

/-- Shifts after shifts. -/
theorem Shifts.trans (h : Shifts b₁ hand₁ b₂ hand₂ s) (h' : Shifts b₂ hand₂ b₃ hand₃ t) :
    Shifts b₁ hand₁ b₃ hand₃ (s ++ t) := by
  induction h' with
  | refl => rwa [Books.append_nil]
  | next _ hshift ih =>
    rw [← Books.append_assoc]
    exact ih.next hshift

/-- Shifts that make no books after shifts. -/
theorem Shifts.trans_nil (h : Shifts b₁ hand₁ b₂ hand₂ s) (h' : Shifts b₂ hand₂ b₃ hand₃ {}) :
    Shifts b₁ hand₁ b₃ hand₃ s := Books.append_nil s ▸ h.trans h'

/-- Moves are shifts. -/
theorem Moves.shifts (h : Moves b₁ hand₁ b₂ hand₂ s) : Shifts b₁ hand₁ b₂ hand₂ s := by
  induction h with
  | refl => exact .refl
  | next _ hmove ih => exact ih.next (.move hmove)

/-! ## Steps -/

/-- Two changes of one channel are one change. -/
theorem modifyChannel_modifyChannel (b : Broker) (ch : Nat) (f g : Channel → Channel) :
    (b.modifyChannel ch f).modifyChannel ch g = b.modifyChannel ch (g ∘ f) := by
  simp only [modifyChannel, List.modify_modify_eq]

/-- The end of a channel whose copies are taken into a hand. -/
theorem shifts_ended (hc : b.channels[ch]? = some c) :
    Shifts b hand (b.modifyChannel ch .ended) (c.unacked.map (·.2) ++ hand) {} := by
  have htaken : Move b hand (b.modifyChannel ch fun c => { c with unacked := [] })
      (c.unacked.map (·.2) ++ hand) {} := .taken hc (List.nil_sublist _) (by simp)
  have hclosed : Shift (b.modifyChannel ch fun c => { c with unacked := [] })
      (c.unacked.map (·.2) ++ hand) (Broker.modifyChannel _ ch fun c =>
        { c with closed := true, consumers := [] }) (c.unacked.map (·.2) ++ hand) {} :=
    .channel fun _ => ⟨rfl, rfl⟩
  rw [modifyChannel_modifyChannel] at hclosed
  exact htaken.moves.shifts.trans_nil hclosed.shifts

/-- Ending a channel is a chain of shifts. -/
theorem shifts_terminate (b : Broker) (hand : List Unacked) (ch : Nat) (error : Option Value) :
    Shifts b hand (b.terminate ch error).1 hand (b.terminated ch) := by
  simp only [terminate, terminated]
  cases hopen : b.openChannel ch with
  | error f => exact .refl
  | ok c =>
    obtain ⟨hc, _⟩ := openChannel_eq_ok.mp hopen
    have hc' : (c.consumers.foldl removeConsumer b).channels[ch]? = some c := by
      rw [channels_removeConsumers, hc]
    have hended : Shifts b hand _ (c.unacked.map (·.2) ++ hand) _ :=
      (moves_removeConsumers b hand c.consumers).shifts.trans_nil (shifts_ended hc')
    simp only []
    rw [removeConsumers_modifyChannel]
    exact hended.trans (moves_requeue ..).shifts

/-- Ending several channels is a chain of shifts. -/
theorem shifts_disconnect (b : Broker) (hand : List Unacked) (error : Value) (chs : List Nat) :
    Shifts b hand (chs.foldl (fun b ch => (b.terminate ch (some error)).1) b) hand
      (b.disconnected error chs) := by
  induction chs generalizing b with
  | nil => exact .refl
  | cons ch chs ih => exact (shifts_terminate b hand ch (some error)).trans (ih _)

/-- Ending a channel at its own request is a chain of shifts. -/
theorem shifts_endChannel (b : Broker) (hand : List Unacked) (ch : Nat) (verb : String)
    (params : Option Value) :
    Shifts b hand (b.endChannel ch verb params).broker hand (b.endedBy ch verb params) := by
  simp only [endChannel, endedBy]
  cases callText verb params with
  | error thrown => exact .refl
  | ok text =>
    have hnoted : Shift b hand
        (b.modifyChannel ch fun c => { c with calls := c.calls ++ [text] }) hand {} :=
      .channel fun _ => ⟨rfl, rfl⟩
    have hshifts := hnoted.shifts.trans (shifts_terminate _ hand ch none)
    revert hshifts
    simp only [terminate, Books.nil_append]
    cases Broker.openChannel _ ch <;> exact fun h => h

/-- Forgetting consumers is a chain of shifts. -/
theorem shifts_forget (b : Broker) (hand : List Unacked) (ss : List Consumer) :
    Shifts b hand (ss.foldl forget b) hand {} := by
  induction ss generalizing b with
  | nil => exact .refl
  | cons s ss ih =>
    have hforget : Shift b hand (b.forget s) hand {} := .channel fun _ => ⟨rfl, rfl⟩
    exact hforget.shifts.trans_nil (ih _)

/-- Deleting a queue is a chain of shifts. -/
theorem shifts_deleteQueue {name : Value} (hq : b.queue? name = some q) :
    Shifts b hand (b.deleteQueue name).broker hand (retiring .deleted q.messages) := by
  simp only [deleteQueue, queue, hq]
  have hremoved : Move b hand (b.removeQueue q.id) hand (retiring .deleted q.messages) :=
    .removed _ (mem_of_queue? hq)
  exact hremoved.moves.shifts.trans_nil (shifts_forget ..)

/-- Starting a consumer is a chain of shifts. -/
theorem shifts_consume {number : Nat} {name options reply : Value}
    (h : b.consume ch number name options = .ok (b', reply)) : Shifts b hand b' hand {} := by
  simp only [consume, Bind.bind, Except.bind, queue] at h
  cases hq : b.queue? name with
  | none => simp only [hq, reduceCtorEq] at h
  | some q =>
    have hstarted (b : Broker) (s : Consumer) (r : Registered) (hq : q ∈ b.queues) :
        Shifts b hand (((b.modifyQueue q.id fun q =>
          { q with consumers := q.consumers ++ [s] }).modifyChannel ch fun c =>
            { c with consumers := register r c.consumers }).schedule q.id) hand {} := by
      have hjoined : Shift b hand _ hand {} := .joined (s := s) hq
      refine hjoined.shifts.trans_nil (.trans_nil ?_ (moves_schedule ..).shifts)
      exact Shift.shifts (.channel (by exact fun _ => ⟨rfl, rfl⟩))
    simp only [hq] at h
    split at h <;> cases h
    · exact hstarted b _ _ (mem_of_queue? hq)
    · exact (moves_issue b hand).shifts.trans_nil (hstarted b.issue _ _ (mem_of_queue? hq))

/-- Cancelling a consumer is a chain of shifts. -/
theorem shifts_cancel {tag : Value} {r : Registered}
    (hr : c.consumers.find? (·.tag.sameKey tag) = some r) :
    Shifts b hand (b.cancel ch c tag) hand (retiring .autoDeleted (b.dropped r)) := by
  simp only [cancel, hr]
  rw [removeConsumer_modifyChannel]
  refine (moves_removeConsumer b hand r).shifts.trans_nil ?_
  exact Shift.shifts (.channel (by exact fun _ => ⟨rfl, rfl⟩))

/-- An operation that is a chain of moves, or refused. -/
theorem shifts_attempt {r : Except Fault (Broker × Value)} {s : Books}
    (hok : ∀ b' v, r = .ok (b', v) → Shifts b hand b' hand s)
    (herror : ∀ f, r = .error f → s = {}) :
    Shifts b hand (b.attempt r).broker hand s := by
  cases r with
  | error f =>
    rw [herror f rfl]
    exact .refl
  | ok p => exact hok p.1 p.2 rfl

/-- What an open channel is asked for is a chain of shifts. -/
theorem shifts_perform (hkeyed : b.Keyed) (number : Nat) (c : Channel)
    (p : Amqp.Channel.Primitive) :
    Shifts b hand (b.perform ch number c p).broker hand (b.performed ch c p) := by
  cases p with
  | close params => exact shifts_endChannel ..
  | abort params => exact shifts_endChannel ..
  | queueDeclare spec => exact (moves_declareQueueSpec ..).shifts
  | exchangeDeclare spec =>
    exact shifts_attempt (fun _ _ h => (moves_declareExchange h).shifts) fun _ _ => rfl
  | queueBind queueName exchangeName key =>
    exact shifts_attempt (fun _ _ h => (moves_bind h).shifts) fun _ _ => rfl
  | basicPublish exchangeName key properties body => exact (moves_publish ..).shifts
  | queueDelete name =>
    simp only [perform, performed]
    cases hq : b.queue? name with
    | none =>
      simp only [deleteQueue, queue, hq]
      exact .refl
    | some q => exact shifts_deleteQueue hq
  | exchangeDelete name =>
    exact shifts_attempt (fun _ _ h => (moves_deleteExchange h).shifts) fun _ _ => rfl
  | queuePurge name =>
    simp only [perform, performed]
    cases hq : b.queue? name with
    | none =>
      simp only [purge, queue, hq]
      exact .refl
    | some q =>
      refine shifts_attempt (fun _ _ h => (moves_purge hq h).shifts) fun f hf => ?_
      simp only [purge, queue, hq, Bind.bind, Except.bind, reduceCtorEq] at hf
  | basicConsume queueName options =>
    exact shifts_attempt (fun _ _ => shifts_consume) fun _ _ => rfl
  | basicCancel tag =>
    simp only [perform, performed]
    cases hr : c.consumers.find? (·.tag.sameKey tag) with
    | none =>
      simp only [cancel, hr]
      exact .refl
    | some r => exact shifts_cancel hr
  | basicQos count global => exact Shift.shifts (.channel (by exact fun _ => ⟨rfl, rfl⟩))
  | basicAck tag multiple => exact (moves_ack hkeyed ..).shifts
  | basicNack tag multiple requeue => exact (moves_nack hkeyed ..).shifts

/-- Every step is a chain of shifts. -/
theorem shifts_step (hkeyed : b.Keyed) (e : Event) :
    Shifts b hand (b.step e).broker hand (b.entries e) := by
  cases e with
  | openChannel =>
    simp only [step, openNext, entries]
    split
    · exact Shift.shifts (.move (.idle rfl rfl rfl rfl))
    · exact Move.opened.moves.shifts
  | request ch number p =>
    simp only [step, request, entries]
    cases hopen : b.openChannel ch with
    | ok c => exact shifts_perform hkeyed number c p
    | error f =>
      have hended (verb : String) (params : Option Value) :
          Shifts b hand (b.endChannel ch verb params).broker hand {} :=
        endedBy_of_closed hopen verb params ▸ shifts_endChannel b hand ch verb params
      cases p
      case close params => exact hended ..
      case abort params => exact hended ..
      all_goals exact .refl
  | serve => exact (moves_serve ..).shifts
  | disconnect error =>
    have hshifts : Shifts b hand _ hand _ :=
      shifts_disconnect b hand error (List.range b.channels.length)
    rwa [← fst_disconnect] at hshifts
  | refuseNext error => exact Shift.shifts (.move (.idle rfl rfl rfl rfl))

/-! ## Copies -/

/-- Shifts keep the numbers. -/
theorem Keyed.shift (hb : b.Keyed) (h : Shift b hand b' hand' s) : b'.Keyed := by
  cases h with
  | move h => exact hb.move h
  | channel hf =>
    refine hb.modifyChannel fun c _ hc => ⟨?_, ?_⟩
    · rw [(hf c).2]
      exact hc.distinct
    · rw [(hf c).1, (hf c).2]
      exact hc.assigned
  | joined => exact hb.modifyQueue fun _ => rfl

theorem Keyed.shifts (hb : b.Keyed) (h : Shifts b hand b' hand' s) : b'.Keyed := by
  induction h with
  | refl => exact hb
  | next _ hshift ih => exact ih.shift hshift

/-- Every run is a chain of shifts. -/
theorem shifts_run (hb : b.Keyed) (events : List Event) :
    Shifts b [] (b.run events) [] (b.booksFrom events) := by
  induction events generalizing b with
  | nil => exact .refl
  | cons e events ih =>
    have hstep : Shifts b [] (b.step e).broker [] (b.entries e) := shifts_step hb e
    exact hstep.trans (ih (hb.shifts hstep))

/-- A chain of shifts balances. -/
theorem Shifts.balances (hb : b.Keyed) (h : Shifts b hand b' hand' s) :
    Balances b hand b' hand' s := by
  induction h with
  | refl => exact fun p => rfl
  | next h hshift ih =>
    refine ih.trans ?_
    cases hshift with
    | move hmove => exact hmove.balances (hb.shifts h)
    | channel hf => exact balances_modifyChannel fun c => (hf c).2
    | joined hq => exact (hb.shifts h).balances_modifyQueue hq rfl

/-- Copies are numbered in the order in which they are made. -/
theorem Shifts.numbered (h : Shifts b hand b' hand' s) :
    b.copied ≤ b'.copied ∧
      s.made.map (·.serial) = List.range' b.copied (b'.copied - b.copied) := by
  induction h with
  | refl => simp
  | @next b₂ b₃ _ _ s t _ hshift ih =>
    obtain ⟨hle, hmade⟩ := ih
    have hcases : t.made = [] ∧ b₃.copied = b₂.copied ∨
        ∃ c, t.made = [c] ∧ c.serial = b₂.copied ∧ b₃.copied = b₂.copied + 1 := by
      cases hshift with
      | move hmove =>
        rcases hmove.made_cases with hsame | ⟨c, hone, hserial, _, hnext⟩
        · exact .inl hsame
        · exact .inr ⟨c, hone, hserial, hnext⟩
      | channel | joined => exact .inl ⟨rfl, rfl⟩
    rw [Books.made_append, List.map_append, hmade]
    rcases hcases with ⟨hnone, hsame⟩ | ⟨c, hone, hserial, hnext⟩
    · rw [hnone, hsame, List.map_nil, List.append_nil]
      exact ⟨hle, rfl⟩
    · rw [hone, hnext, List.map_singleton, hserial, Nat.sub_add_comm hle, List.range'_1_concat]
      exact ⟨Nat.le_succ_of_le hle, by rw [Nat.add_sub_of_le hle]⟩

/-- Every number that was used up belongs to one copy, which is in one place. -/
theorem Shifts.serials_perm (h : Shifts {} [] b hand s) :
    ((b.allCopies hand s).map (·.serial)).Perm (List.range b.copied) := by
  rw [List.perm_iff_count]
  intro serial
  have hmade : s.made.map (·.serial) = List.range b.copied := by
    rw [h.numbered.2, List.range_eq_range']
    rfl
  have hcount := h.balances keyed_empty (·.serial == serial)
  have hempty : (({} : Broker).allCopies [] {}).countP (·.serial == serial) = 0 := rfl
  have hhanded : (s.handed.map (·.copy.marked)).countP (·.serial == serial) =
      (s.handed.map (·.copy)).countP (·.serial == serial) := by
    rw [List.countP_map, List.countP_map]
    rfl
  have hserials (copies : List Copy) :
      (copies.map (·.serial)).count serial = copies.countP (·.serial == serial) := by
    rw [List.count, List.countP_map]
    rfl
  rw [← hmade, hserials, hserials]
  omega

/-! ## Channels -/

/-- The channels keep their next tags, and nothing new waits on them. -/
structure Still (b b' : Broker) : Prop where
  length : b.channels.length ≤ b'.channels.length
  channels : ∀ (ch : Nat) (c' : Channel), b'.channels[ch]? = some c' →
    (b.channels[ch]? = none ∧ c'.nextTag = 1 ∧ c'.unacked = []) ∨
      ∃ c, b.channels[ch]? = some c ∧ c'.nextTag = c.nextTag ∧ c'.unacked.Sublist c.unacked

theorem Still.refl (b : Broker) : b.Still b :=
  ⟨Nat.le_refl _, fun _ c' hc' => .inr ⟨c', hc', rfl, List.Sublist.refl _⟩⟩

theorem Still.congr (h : b.Still b₁) (hsame : b'.channels = b₁.channels) : b.Still b' :=
  ⟨hsame ▸ h.length, hsame ▸ h.channels⟩

theorem Still.modifyChannel
    (hf : ∀ c, b.channels[ch]? = some c →
      (f c).nextTag = c.nextTag ∧ (f c).unacked.Sublist c.unacked) :
    b.Still (b.modifyChannel ch f) := by
  refine ⟨by simp [Broker.modifyChannel], fun i c' hc' => .inr ?_⟩
  rw [Broker.modifyChannel, List.getElem?_modify] at hc'
  obtain ⟨c, hc, rfl⟩ := Option.map_eq_some_iff.mp hc'
  by_cases hch : ch = i
  · rw [if_pos hch]
    exact ⟨c, hc, hf c (hch ▸ hc)⟩
  · rw [if_neg hch]
    exact ⟨c, hc, rfl, List.Sublist.refl _⟩

/-- A channel that is opened has handed out nothing. -/
theorem Still.opened (b : Broker) : b.Still { b with channels := b.channels ++ [{}] } := by
  refine ⟨by simp, fun i c' hc' => ?_⟩
  rw [List.getElem?_append] at hc'
  split at hc'
  · exact .inr ⟨c', hc', rfl, List.Sublist.refl _⟩
  · rename_i hlength
    obtain rfl : {} = c' := List.mem_singleton.mp (List.mem_of_getElem? hc') |>.symm
    exact .inl ⟨List.getElem?_eq_none (Nat.le_of_not_lt hlength), rfl, rfl⟩

/-- A shift is a handover, or it leaves the channels still and hands out nothing. -/
theorem Shift.still_or_handed (h : Shift b hand b' hand' s) :
    (s.handed = [] ∧ b.Still b') ∨
      ∃ q copy x c, b.channels[x.channel]? = some c ∧
        b' = b.handedTo q ⟨copy, c.nextTag, x⟩ ∧ s.handed = [⟨copy, c.nextTag, x⟩] := by
  have hsublist {c c' : Channel} (hsame : c'.unacked = c.unacked) :
      c'.unacked.Sublist c.unacked := hsame ▸ List.Sublist.refl _
  cases h with
  | channel hf => exact .inl ⟨rfl, .modifyChannel fun c _ => ⟨(hf c).1, hsublist (hf c).2⟩⟩
  | joined => exact .inl ⟨rfl, (Still.refl b).congr rfl⟩
  | move h =>
    cases h with
    | idle _ hchannels => exact .inl ⟨rfl, (Still.refl b).congr hchannels⟩
    | noted hf =>
      exact .inl ⟨rfl, .modifyChannel fun c _ => ⟨(hf c).nextTag, hsublist (hf c).unacked⟩⟩
    | opened => exact .inl ⟨rfl, .opened b⟩
    | declared | put | purged | removed | thinned | retired =>
      exact .inl ⟨rfl, (Still.refl b).congr rfl⟩
    | unregistered => exact .inl ⟨rfl, .modifyChannel (by exact fun _ _ => ⟨rfl, hsublist rfl⟩)⟩
    | @started _ ch number tag name =>
      have hregistered : b.Still (b.modifyChannel ch fun c =>
          { c with consumers := register ⟨tag, name, number⟩ c.consumers }) :=
        .modifyChannel fun _ _ => ⟨rfl, hsublist rfl⟩
      exact .inl ⟨rfl, hregistered.congr rfl⟩
    | taken hc hrest =>
      refine .inl ⟨rfl, .modifyChannel fun c' hc' => ⟨rfl, ?_⟩⟩
      rwa [Option.some.inj (hc'.symm.trans hc)]
    | ended => exact .inl ⟨rfl, .modifyChannel fun _ _ => ⟨rfl, List.nil_sublist _⟩⟩
    | @returned _ u => exact .inl ⟨rfl, (Still.refl b).congr (channels_requeue b [u])⟩
    | @handed _ q copy _ x c _ _ _ hc => exact .inr ⟨q, copy, x, c, hc, rfl, rfl⟩

/-- The tag of the next message on a channel. -/
def nextTag (b : Broker) (ch : Nat) : Nat := ((b.channels[ch]?).map (·.nextTag)).getD 1

theorem Still.nextTag_eq (h : b.Still b') (ch : Nat) : b'.nextTag ch = b.nextTag ch := by
  rw [nextTag, nextTag]
  cases hc' : b'.channels[ch]? with
  | none =>
    have hnone : b.channels[ch]? = none :=
      List.getElem?_eq_none (Nat.le_trans h.length (List.getElem?_eq_none_iff.mp hc'))
    rw [hnone]
  | some c' =>
    rcases h.channels ch c' hc' with ⟨hnone, hnext, _⟩ | ⟨c, hc, hnext, _⟩
    · rw [hnone, Option.map_some, hnext]
      rfl
    · rw [hc, Option.map_some, Option.map_some, hnext]

/-- A handover uses up the next tag of its channel. -/
theorem nextTag_handedTo {x : Consumer} (hc : b.channels[x.channel]? = some c) (q : Queue)
    (copy : Copy) (tag ch : Nat) :
    (b.handedTo q ⟨copy, tag, x⟩).nextTag ch =
      if x.channel = ch then b.nextTag ch + 1 else b.nextTag ch := by
  simp only [nextTag, handedTo, modifyQueue, Broker.modifyChannel, List.getElem?_modify]
  split
  · rename_i hch
    rw [← hch, hc]
    rfl
  · cases b.channels[ch]? <;> rfl

/-- A chain of shifts hands out the next tags of each channel, in order and without a gap. -/
theorem Shifts.tags (h : Shifts b hand b' hand' s) (ch : Nat) :
    ∃ n, b'.nextTag ch = b.nextTag ch + n ∧
      (s.handed.filter (·.consumer.channel == ch)).map (·.tag) =
        List.range' (b.nextTag ch) n := by
  induction h with
  | refl => exact ⟨0, rfl, rfl⟩
  | @next b₂ b₃ _ _ s t _ hshift ih =>
    obtain ⟨n, hnext, hhanded⟩ := ih
    rw [Books.handed_append, List.filter_append, List.map_append, hhanded]
    rcases hshift.still_or_handed with ⟨hnone, hstill⟩ | ⟨q, copy, x, c, hc, rfl, hone⟩
    · exact ⟨n, (hstill.nextTag_eq ch).trans hnext, by simp [hnone]⟩
    · rw [nextTag_handedTo hc, hone]
      by_cases hch : x.channel = ch
      · have htag : c.nextTag = b₂.nextTag ch := by
          rw [nextTag, ← hch, hc]
          rfl
        refine ⟨n + 1, by rw [if_pos hch, hnext]; rfl, ?_⟩
        simp [hch, htag, hnext, List.range'_1_concat]
      · refine ⟨n, by rw [if_neg hch, hnext], ?_⟩
        simp [hch]

/-- What waits on a channel waits in the order of the tags, which have been given out. -/
def Channel.Ordered (c : Channel) : Prop :=
  (c.unacked.map (·.1) ++ [c.nextTag]).Pairwise (· < ·)

/-- What waits on a channel once there is one more. -/
theorem Channel.Ordered.taking (h : c.Ordered) (q : Queue) (x : Handover) :
    (c.taking q x).Ordered := by
  have hlast : ∀ k ∈ c.unacked.map (·.1), k < c.nextTag := fun k hk =>
    (List.pairwise_append.mp h).2.2 k hk _ (List.mem_singleton_self _)
  have hlater : ∀ k ∈ c.unacked.map (·.1) ++ [c.nextTag], k < c.nextTag + 1 := by
    intro k hk
    rcases List.mem_append.mp hk with hk | hk
    · exact Nat.lt_succ_of_lt (hlast k hk)
    · rw [List.mem_singleton.mp hk]
      exact Nat.lt_succ_self _
  have hsnoc (ks : List Nat) (hks : ks.Sublist (c.unacked.map (·.1) ++ [c.nextTag])) :
      (ks ++ [c.nextTag + 1]).Pairwise (· < ·) := by
    refine List.pairwise_append.mpr ⟨h.sublist hks, List.pairwise_singleton _ _, ?_⟩
    intro k hk l hl
    rw [List.mem_singleton.mp hl]
    exact hlater k (hks.subset hk)
  cases hmode : x.consumer.mode with
  | manual => simpa [Channel.Ordered, Channel.taking, hmode] using hsnoc _ (List.Sublist.refl _)
  | auto =>
    simpa [Channel.Ordered, Channel.taking, hmode] using hsnoc _ (List.sublist_append_left _ _)

/-- Shifts keep what waits in order. -/
theorem Shifts.ordered (hb : ∀ c ∈ b.channels, c.Ordered) (h : Shifts b hand b' hand' s) :
    ∀ c ∈ b'.channels, c.Ordered := by
  induction h with
  | refl => exact hb
  | next _ hshift ih =>
    intro c' hc'
    rcases hshift.still_or_handed with ⟨_, hstill⟩ | ⟨q, copy, x, c, hc, rfl, _⟩
    · obtain ⟨ch, hch⟩ := List.getElem?_of_mem hc'
      rcases hstill.channels ch c' hch with ⟨_, _, hnone⟩ | ⟨c, hc, hnext, hsublist⟩
      · rw [Channel.Ordered, hnone]
        exact List.pairwise_singleton _ _
      · have hold := ih c (List.mem_of_getElem? hc)
        rw [Channel.Ordered, hnext]
        exact hold.sublist ((hsublist.map _).append_right _)
    · rcases mem_modifyChannel hc' with hmem | ⟨c, hc, rfl⟩
      · exact ih c' hmem
      · exact (ih c (List.mem_of_getElem? hc)).taking q _

end Amqp.Broker
