import Amqp.Proofs.Broker.Sound

/-!
# The balance of a move

Copies are counted in all the places they can be in: ready on a queue, waiting on a channel, in
hand, and among those that have left the broker. What a move takes off one place it puts on another,
and only a publish adds a copy. Whether a copy has been handed out counts too, so that a handover
takes a copy as it is and puts it back as one that has been handed out.
-/

namespace Amqp.Broker

open Books (retiring handing)

/-- The copies that are ready on some queue. -/
def ready (b : Broker) : List Copy := b.queues.flatMap (·.messages)

/-- The copies that wait on a channel. -/
def Channel.waiting (c : Channel) : List Copy := c.unacked.map (·.2.copy.marked)

/-- The copies that wait on some channel. -/
def waiting (b : Broker) : List Copy := b.channels.flatMap Channel.waiting

/-- All copies that the broker, a hand and the books have. -/
def allCopies (b : Broker) (hand : List Unacked) (s : Books) : List Copy :=
  b.ready ++ b.waiting ++ hand.map (·.copy.marked) ++ s.retired.map (·.copy)

/-- Of every kind there are as many copies as there were and as the books say. -/
def Balances (b : Broker) (hand : List Unacked) (b' : Broker) (hand' : List Unacked) (s : Books) :
    Prop :=
  ∀ p : Copy → Bool, (b'.allCopies hand' s).countP p + (s.handed.map (·.copy)).countP p =
    (b.allCopies hand {}).countP p + s.made.countP p + (s.handed.map (·.copy.marked)).countP p

variable {b b' : Broker} {hand hand' : List Unacked} {s : Books} {ch : Nat} {q : Queue}
  {c : Channel} {f : Channel → Channel}

/-! ## Counting -/

/-- A queue among those of a broker is the only one that changes, or that goes, with its number. -/
theorem Keyed.exists_queues_eq (hb : b.Keyed) (hq : q ∈ b.queues) :
    ∃ before after, b.queues = before ++ q :: after ∧
      (∀ f, (b.modifyQueue q.id f).queues = before ++ f q :: after) ∧
      (b.removeQueue q.id).queues = before ++ after := by
  obtain ⟨before, after, hqueues⟩ := List.append_of_mem hq
  have hdistinct := hb.distinct
  rw [hqueues, List.map_append, List.map_cons, List.nodup_append, List.nodup_cons] at hdistinct
  have hbefore (q' : Queue) (hq' : q' ∈ before) : q'.id ≠ q.id :=
    hdistinct.2.2 _ (List.mem_map_of_mem hq') _ (List.mem_cons_self ..)
  have hafter (q' : Queue) (hq' : q' ∈ after) : q'.id ≠ q.id := by
    intro hid
    exact hdistinct.2.1.1 (List.mem_map.mpr ⟨q', hq', hid⟩)
  refine ⟨before, after, hqueues, fun f => ?_, ?_⟩
  · have hkept (qs : List Queue) (h : ∀ q' ∈ qs, q'.id ≠ q.id) :
        (qs.map fun q' => if q'.id = q.id then f q' else q') = qs :=
      (List.map_congr_left fun q' hq' => if_neg (h q' hq')).trans (List.map_id' _)
    rw [Broker.modifyQueue, hqueues, List.map_append, List.map_cons, hkept before hbefore,
      hkept after hafter, if_pos rfl]
  · have hkept (qs : List Queue) (h : ∀ q' ∈ qs, q'.id ≠ q.id) : qs.filter (·.id != q.id) = qs :=
      List.filter_eq_self.mpr fun q' hq' => bne_iff_ne.mpr (h q' hq')
    rw [removeQueue, hqueues, List.filter_append, List.filter_cons_of_neg (by simp),
      hkept before hbefore, hkept after hafter]

/-- A change of a queue changes the copies that are ready by those of the queue. -/
theorem Keyed.countP_ready_modifyQueue (hb : b.Keyed) (hq : q ∈ b.queues) (f : Queue → Queue)
    (p : Copy → Bool) :
    (b.modifyQueue q.id f).ready.countP p + q.messages.countP p =
      b.ready.countP p + (f q).messages.countP p := by
  obtain ⟨before, after, hqueues, hmodify, _⟩ := hb.exists_queues_eq hq
  simp only [ready, hmodify, hqueues, List.flatMap_append, List.flatMap_cons, List.countP_append]
  omega

/-- The copies that are ready are fewer by those of a queue that goes. -/
theorem Keyed.countP_ready_removeQueue (hb : b.Keyed) (hq : q ∈ b.queues) (p : Copy → Bool) :
    (b.removeQueue q.id).ready.countP p + q.messages.countP p = b.ready.countP p := by
  obtain ⟨before, after, hqueues, _, hremove⟩ := hb.exists_queues_eq hq
  simp only [ready, hremove, hqueues, List.flatMap_append, List.flatMap_cons, List.countP_append]
  omega

/-- A change of a channel changes the copies that wait by those of the channel. -/
theorem countP_waiting_modifyChannel (hc : b.channels[ch]? = some c) (f : Channel → Channel)
    (p : Copy → Bool) :
    (b.modifyChannel ch f).waiting.countP p + c.waiting.countP p =
      b.waiting.countP p + (f c).waiting.countP p := by
  obtain ⟨hlt, hget⟩ := List.getElem?_eq_some_iff.mp hc
  obtain ⟨before, c', after, hchannels, hlength, hmodify⟩ := List.exists_of_modify f hlt
  obtain rfl : c' = c := by
    have hget' : b.channels[ch]? = some c' := by simp [hchannels, ← hlength]
    exact Option.some.inj (hget'.symm.trans hc)
  have hchannels' : (b.modifyChannel ch f).channels = before ++ f c' :: after := hmodify
  simp only [waiting, hchannels', hchannels, List.flatMap_append, List.flatMap_cons,
    List.countP_append]
  omega

/-- The same copies wait where a channel changes but keeps what waits. -/
theorem waiting_modifyChannel (hf : ∀ c, (f c).unacked = c.unacked) :
    (b.modifyChannel ch f).waiting = b.waiting := by
  have hkept : (b.channels.modify ch f).map Channel.waiting = b.channels.map Channel.waiting := by
    apply List.ext_getElem?
    intro i
    simp only [List.getElem?_map, List.getElem?_modify]
    cases b.channels[i]? with
    | none => rfl
    | some c => by_cases hch : ch = i <;> simp [hch, Channel.waiting, hf]
  rw [waiting, waiting, List.flatMap_def, List.flatMap_def]
  exact congrArg _ hkept

/-! ## Moves -/

/-- One balanced change after the other is balanced. -/
theorem Balances.trans {b'' : Broker} {hand'' : List Unacked} {t : Books}
    (h : Balances b hand b' hand' s) (h' : Balances b' hand' b'' hand'' t) :
    Balances b hand b'' hand'' (s ++ t) := by
  intro p
  have hcount := h p
  have hcount' := h' p
  simp only [allCopies, List.countP_append, List.map_nil, List.countP_nil] at hcount hcount'
  simp only [allCopies, List.countP_append, Books.made_append, Books.handed_append,
    Books.retired_append, List.map_append, List.map_nil, List.countP_nil]
  omega

/-- A change of a queue that keeps its copies balances. -/
theorem Keyed.balances_modifyQueue (hb : b.Keyed) (hq : q ∈ b.queues) {f : Queue → Queue}
    (hf : (f q).messages = q.messages) : Balances b hand (b.modifyQueue q.id f) hand {} := by
  intro p
  have hready := hb.countP_ready_modifyQueue hq f p
  rw [hf] at hready
  have hwaiting : (b.modifyQueue q.id f).waiting = b.waiting := rfl
  simp only [allCopies, List.countP_append, hwaiting, List.map_nil, List.countP_nil]
  omega

/-- A change of a channel that keeps what waits balances. -/
theorem balances_modifyChannel (hf : ∀ c, (f c).unacked = c.unacked) :
    Balances b hand (b.modifyChannel ch f) hand {} := by
  intro p
  have hready : (b.modifyChannel ch f).ready = b.ready := rfl
  simp only [allCopies, waiting_modifyChannel hf, hready, List.map_nil, List.countP_nil]

/-- A change that takes copies off a channel and into a hand balances. -/
theorem balances_taken {us : List Unacked} (hc : b.channels[ch]? = some c)
    (hperm : (c.unacked.map (·.2)).Perm (us ++ (f c).unacked.map (·.2))) :
    Balances b hand (b.modifyChannel ch f) (us ++ hand) {} := by
  intro p
  have hwaiting := countP_waiting_modifyChannel hc f p
  have hready : (b.modifyChannel ch f).ready = b.ready := rfl
  have hcount := (hperm.map (·.copy.marked)).countP_eq p
  simp only [List.map_append, List.map_map, List.countP_append] at hcount
  simp only [Channel.waiting] at hwaiting
  simp only [allCopies, List.map_append, List.countP_append, hready, List.map_nil, List.countP_nil]
  simp only [Function.comp_def] at hcount
  omega

/-- Putting a copy back balances: it is ready again, or has left the broker. -/
theorem Keyed.balances_giveBack (hb : b.Keyed) (u : Unacked) :
    Balances b (u :: hand) (b.giveBack u) hand (retiring .orphaned (b.orphaned u)) := by
  intro p
  rcases giveBack_cases b u with ⟨hsame, horphaned⟩ | ⟨q, hq, horphaned, hback⟩
  · simp only [allCopies, List.map_cons, List.countP_append, hsame, Books.copies_retiring,
      horphaned, List.map_nil, List.countP_nil, Books.made_retiring, Books.handed_retiring,
      List.countP_cons]
    omega
  · have hready := hb.countP_ready_modifyQueue hq
      (fun q => { q with messages := u.copy.marked :: q.messages }) p
    have hready' : (b.giveBack u).ready = (b.modifyQueue q.id fun q =>
        { q with messages := u.copy.marked :: q.messages }).ready := by
      rw [hback]
      rfl
    have hwaiting : (b.giveBack u).waiting = b.waiting := by
      rw [hback]
      rfl
    simp only [List.countP_cons] at hready
    simp only [allCopies, List.map_cons, List.countP_append, hready', hwaiting, horphaned,
      Books.retiring_nil, List.map_nil, List.countP_nil, List.countP_cons]
    omega

/-- A copy that is handed out waits at its consumer's channel, or it has left the broker. -/
theorem Channel.countP_waiting_taking (c : Channel) (q : Queue) (h : Handover) (p : Copy → Bool) :
    (c.taking q h).waiting.countP p + (h.retirements.map (·.copy)).countP p =
      c.waiting.countP p + [h.copy.marked].countP p := by
  cases hmode : h.consumer.mode <;>
    simp [Channel.taking, Channel.waiting, Handover.retirements, hmode]

/-- A handover balances. -/
theorem Keyed.balances_handedTo (hb : b.Keyed) (hq : q ∈ b.queues) {copy : Copy} {rest : List Copy}
    {s : Consumer} (hmessages : q.messages = copy :: rest) (hc : b.channels[s.channel]? = some c) :
    Balances b hand (b.handedTo q ⟨copy, c.nextTag, s⟩) hand
      (handing [⟨copy, c.nextTag, s⟩]) := by
  intro p
  have hready := hb.countP_ready_modifyQueue hq
    (fun q => { q with messages := q.messages.tail }) p
  have hready' : (b.handedTo q ⟨copy, c.nextTag, s⟩).ready = (b.modifyQueue q.id _).ready := rfl
  have hwaiting := countP_waiting_modifyChannel hc (·.taking q ⟨copy, c.nextTag, s⟩) p
  have hwaiting' : (b.handedTo q ⟨copy, c.nextTag, s⟩).waiting =
    (b.modifyChannel s.channel (·.taking q ⟨copy, c.nextTag, s⟩)).waiting := rfl
  have htaken := c.countP_waiting_taking q ⟨copy, c.nextTag, s⟩ p
  simp only [hmessages, List.tail_cons, List.countP_cons] at hready
  simp only [List.countP_cons, List.countP_nil] at htaken
  simp only [allCopies, List.countP_append, hready', hwaiting', handing, List.map_cons,
    List.map_nil, List.countP_cons, List.countP_nil, List.flatMap_cons, List.flatMap_nil,
    List.append_nil]
  omega

/-- Every move balances. -/
theorem Move.balances (hb : b.Keyed) (h : Move b hand b' hand' s) : Balances b hand b' hand' s := by
  cases h with
  | idle hqueues hchannels _ _ =>
    intro p
    simp [allCopies, ready, waiting, hqueues, hchannels]
  | noted hf => exact balances_modifyChannel fun c => (hf c).unacked
  | opened =>
    intro p
    simp [allCopies, ready, waiting, Channel.waiting]
  | declared =>
    intro p
    simp [allCopies, ready, waiting]
  | @put _ q c hq hc =>
    intro p
    have hready := hb.countP_ready_modifyQueue hq
      (fun q => { q with messages := q.messages ++ [{ c with serial := b.copied }] }) p
    have hready' : (b.append q c).ready = (b.modifyQueue q.id _).ready := rfl
    have hwaiting : (b.append q c).waiting = b.waiting := rfl
    simp only [List.countP_append] at hready
    simp only [allCopies, List.countP_append, hready', hwaiting, List.map_nil, List.countP_nil]
    omega
  | @purged _ q hq =>
    intro p
    have hready := hb.countP_ready_modifyQueue hq (fun q => { q with messages := [] }) p
    have hwaiting : (b.modifyQueue q.id fun q => { q with messages := [] }).waiting = b.waiting :=
      rfl
    simp only [allCopies, List.countP_append, hwaiting, Books.copies_retiring, List.map_nil,
      List.countP_nil, Books.made_retiring, Books.handed_retiring]
    simp only [List.countP_nil] at hready
    omega
  | @removed _ q _ hq =>
    intro p
    have hready := hb.countP_ready_removeQueue hq p
    have hwaiting : (b.removeQueue q.id).waiting = b.waiting := rfl
    simp only [allCopies, List.countP_append, hwaiting, Books.copies_retiring, List.map_nil,
      List.countP_nil, Books.made_retiring, Books.handed_retiring]
    omega
  | thinned hq _ => exact hb.balances_modifyQueue hq rfl
  | unregistered _ => exact balances_modifyChannel fun _ => rfl
  | started hq _ _ _ =>
    exact (hb.balances_modifyQueue (mem_of_queue? hq) rfl).trans
      (balances_modifyChannel (by exact fun _ => rfl))
  | taken hc _ hperm => exact balances_taken hc hperm
  | ended hc _ =>
    refine balances_taken hc ?_
    simp [Channel.ended]
  | @retired _ us reason =>
    intro p
    simp only [allCopies, List.map_append, List.countP_append, Books.copies_retiring, List.map_nil,
      List.countP_nil, Books.made_retiring, Books.handed_retiring]
    omega
  | returned => exact hb.balances_giveBack _
  | handed hq hmessages _ hc => exact hb.balances_handedTo hq hmessages hc

/-- A chain of moves balances. -/
theorem Moves.balances (hb : b.Keyed) (h : Moves b hand b' hand' s) :
    Balances b hand b' hand' s := by
  induction h with
  | refl => exact fun p => rfl
  | next h hmove ih => exact ih.trans (hmove.balances (hb.moves h))

end Amqp.Broker
