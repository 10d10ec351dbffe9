import Amqp.Proofs.Broker.Sound

/-!
# Every step is a chain of moves

The operations of a broker are taken apart into moves, with the books of the operation as the books
of the chain. Only here the definitions of the operations are opened; what holds of all moves holds
of all steps.
-/

namespace Amqp.Broker

open Books (retiring handing)

variable {b b' : Broker} {hand : List Unacked} {ch : Nat} {q : Queue} {f : Channel → Channel}

/-! ## Consumers that go -/

/-- Taking consumers off a queue is a move, or none at all. -/
theorem moves_removeConsumer (b : Broker) (hand : List Unacked) (r : Registered) :
    Moves b hand (b.removeConsumer r) hand (retiring .autoDeleted (b.dropped r)) := by
  simp only [removeConsumer, dropped]
  cases hq : b.queue? r.queue with
  | none => exact Moves.refl
  | some q =>
    simp only []
    split
    · exact (Move.removed _ (mem_of_queue? hq)).moves
    · exact (Move.thinned (mem_of_queue? hq) List.filter_sublist.subset).moves

/-- Taking several consumers off their queues is a chain of moves. -/
theorem moves_removeConsumers (b : Broker) (hand : List Unacked) (rs : List Registered) :
    Moves b hand (rs.foldl removeConsumer b) hand (retiring .autoDeleted (b.droppedBy rs)) := by
  induction rs generalizing b with
  | nil => exact Moves.refl
  | cons r rs ih =>
    rw [droppedBy, Books.retiring_append]
    exact (moves_removeConsumer b hand r).trans (ih _)

/-- Taking consumers off a queue changes no channel. -/
theorem removeConsumer_modifyChannel (b : Broker) (r : Registered) :
    (b.modifyChannel ch f).removeConsumer r = (b.removeConsumer r).modifyChannel ch f := by
  simp only [removeConsumer]
  have hqueue : (b.modifyChannel ch f).queue? r.queue = b.queue? r.queue := rfl
  rw [hqueue]
  cases b.queue? r.queue with
  | none => rfl
  | some q =>
    simp only []
    split <;> rfl

theorem removeConsumers_modifyChannel (b : Broker) (rs : List Registered) :
    rs.foldl removeConsumer (b.modifyChannel ch f) =
      (rs.foldl removeConsumer b).modifyChannel ch f := by
  induction rs generalizing b with
  | nil => rfl
  | cons r rs ih => rw [List.foldl_cons, removeConsumer_modifyChannel, ih, List.foldl_cons]

theorem channels_removeConsumer (b : Broker) (r : Registered) :
    (b.removeConsumer r).channels = b.channels := by
  simp only [removeConsumer]
  split
  · rfl
  · split <;> rfl

theorem channels_removeConsumers (b : Broker) (rs : List Registered) :
    (rs.foldl removeConsumer b).channels = b.channels := by
  induction rs generalizing b with
  | nil => rfl
  | cons r rs ih => rw [List.foldl_cons, ih, channels_removeConsumer]

theorem thinner_removeConsumer (b : Broker) (r : Registered) :
    b.Thinner (b.removeConsumer r) := by
  simp only [removeConsumer]
  split
  · exact Thinner.of_queues rfl
  · rename_i hq
    split
    · exact Thinner.removeQueue
    · exact Thinner.thinned (mem_of_queue? hq) List.filter_sublist.subset

theorem thinner_removeConsumers (b : Broker) (rs : List Registered) :
    b.Thinner (rs.foldl removeConsumer b) := by
  induction rs generalizing b with
  | nil => exact Thinner.of_queues rfl
  | cons r rs ih => exact (thinner_removeConsumer b r).trans (ih _)

/-- A queue that is left has no consumer of the registered one's number. -/
theorem number_ne_of_removeConsumer {r : Registered} {s : Consumer}
    (hq : q ∈ (b.removeConsumer r).queues) (hs : s ∈ q.consumers)
    (hholder : b.holder? r.queue = some q.id) : s.number ≠ r.number := by
  obtain ⟨q₀, hq₀, hid⟩ := Option.map_eq_some_iff.mp hholder
  simp only [removeConsumer, hq₀] at hq
  split at hq
  · exact absurd hid.symm (mem_removeQueue.mp hq).2
  · obtain ⟨q₁, _, ⟨_, rfl⟩ | ⟨hne, rfl⟩⟩ := mem_modifyQueue hq
    · have hkept := (List.mem_filter.mp hs).2
      simp only [Bool.not_eq_true', Bool.or_eq_false_iff, beq_eq_false_iff_ne] at hkept
      exact hkept.2
    · exact absurd hid.symm hne

/-- Queues that are left have no consumers of the registered ones' numbers. -/
theorem number_ne_of_removeConsumers {r : Registered} {rs : List Registered} {s : Consumer}
    (hq : q ∈ (rs.foldl removeConsumer b).queues) (hs : s ∈ q.consumers) (hr : r ∈ rs)
    (hholder : b.holder? r.queue = some q.id) : s.number ≠ r.number := by
  induction rs generalizing b with
  | nil => exact nomatch hr
  | cons r' rs ih =>
    have hthinner := thinner_removeConsumers (b.removeConsumer r') rs
    obtain ⟨q₁, hq₁, hid, hsubset⟩ := hthinner.consumers q hq
    rcases List.mem_cons.mp hr with rfl | hr
    · exact number_ne_of_removeConsumer hq₁ (hsubset hs) (hid ▸ hholder)
    · refine ih hq hr ?_
      rw [← hid] at hholder ⊢
      exact (thinner_removeConsumer b r').holders q₁ hq₁ _ hholder

/-! ## Channels that end -/

/-- Putting copies back is a chain of moves. -/
theorem moves_requeue (b : Broker) (hand us : List Unacked) :
    Moves b (us ++ hand) (b.requeue us) hand (retiring .orphaned (b.orphans us)) := by
  induction us generalizing b with
  | nil => exact Moves.refl
  | cons u us ih =>
    rw [orphans, Books.retiring_append]
    exact Move.returned.moves.trans (ih _)

theorem channels_requeue (b : Broker) (us : List Unacked) :
    (b.requeue us).channels = b.channels := by
  induction us generalizing b with
  | nil => rfl
  | cons u us ih =>
    have hone : (b.giveBack u).channels = b.channels := by
      simp only [giveBack]
      split <;> rfl
    exact (ih (b.giveBack u)).trans hone

/-- Once a channel's registered consumers are gone, no queue has a consumer of the channel. -/
theorem Attended.channel_ne (hb : b.Attended) {c : Channel} (hc : b.channels[ch]? = some c) :
    ∀ q ∈ (c.consumers.foldl removeConsumer b).queues, ∀ s ∈ q.consumers, s.channel ≠ ch := by
  intro q hq s hs hch
  obtain ⟨q₀, hq₀, hid, hsubset⟩ := (thinner_removeConsumers b c.consumers).consumers q hq
  obtain ⟨c', hc', _, r, hr, hstands⟩ := hb.registered q₀ hq₀ s (hsubset hs)
  rw [hch] at hc'
  obtain rfl := Option.some.inj (hc'.symm.trans hc)
  exact number_ne_of_removeConsumers hq hs hr (hid ▸ hstands.queue) hstands.number.symm

/-- Ending a channel is a chain of moves. -/
theorem moves_terminate (hb : b.Attended) (ch : Nat) (error : Option Value) :
    Moves b hand (b.terminate ch error).1 hand (b.terminated ch) := by
  simp only [terminate, terminated]
  cases hopen : b.openChannel ch with
  | error f => exact Moves.refl
  | ok c =>
    obtain ⟨hc, _⟩ := openChannel_eq_ok.mp hopen
    have hc' : (c.consumers.foldl removeConsumer b).channels[ch]? = some c := by
      rw [channels_removeConsumers, hc]
    have hended : Moves b hand _ (c.unacked.map (·.2) ++ hand) _ :=
      (moves_removeConsumers b hand c.consumers).next (.ended hc' (hb.channel_ne hc))
    rw [Books.append_nil] at hended
    simp only []
    rw [removeConsumers_modifyChannel]
    exact hended.trans (moves_requeue ..)

/-- Ending several channels is a chain of moves. -/
theorem moves_disconnect (hb : b.Attended) (error : Value) (chs : List Nat) :
    Moves b hand (chs.foldl (fun b ch => (b.terminate ch (some error)).1) b) hand
      (b.disconnected error chs) := by
  induction chs generalizing b with
  | nil => exact Moves.refl
  | cons ch chs ih =>
    have hmoves : Moves b hand _ hand _ := moves_terminate hb ch (some error)
    exact hmoves.trans (ih (hb.moves hmoves))

theorem fst_disconnect (b : Broker) (error : Value) :
    (b.disconnect error).1 =
      (List.range b.channels.length).foldl (fun b ch => (b.terminate ch (some error)).1) b := by
  rw [disconnect]
  exact (List.foldl_hom Prod.fst fun _ _ => rfl).symm

/-- A channel that notes a call is open as before. -/
theorem openChannel_modifyChannel (hf : ∀ c, (f c).closed = c.closed) :
    (b.modifyChannel ch f).openChannel ch = (b.openChannel ch).map f := by
  simp only [openChannel, modifyChannel, List.getElem?_modify_eq, Option.map_eq_map]
  cases b.channels[ch]? with
  | none => rfl
  | some c =>
    simp only [Option.map_some, hf]
    split <;> rfl

/-- Ending a channel at its own request is a chain of moves. -/
theorem moves_endChannel (hb : b.Attended) (ch : Nat) (verb : String) (params : Option Value) :
    Moves b hand (b.endChannel ch verb params).broker hand (b.endedBy ch verb params) := by
  simp only [endChannel, endedBy]
  cases callText verb params with
  | error thrown => exact Moves.refl
  | ok text =>
    have hnoted : Moves b hand
        (b.modifyChannel ch fun c => { c with calls := c.calls ++ [text] }) hand {} :=
      Move.moves (.noted fun _ => ⟨rfl, rfl, rfl, rfl⟩)
    have hmoves := hnoted.trans (moves_terminate (hb.moves hnoted) ch none)
    revert hmoves
    simp only [terminate, Books.nil_append]
    cases Broker.openChannel _ ch <;> exact fun h => h

/-- A channel that has ended only notes that it is to end. -/
theorem endedBy_of_closed {fault : Fault} (h : b.openChannel ch = .error fault) (verb : String)
    (params : Option Value) : b.endedBy ch verb params = {} := by
  simp only [endedBy, terminated]
  cases callText verb params with
  | error thrown => rfl
  | ok text =>
    simp only []
    rw [openChannel_modifyChannel (by exact fun _ => rfl), h]
    rfl

/-! ## Primitives -/

/-- An operation that may be refused is a chain of moves where it is one if it is carried out. -/
theorem moves_attempt {r : Except Fault (Broker × Value)} {s : Books}
    (hok : ∀ b' v, r = .ok (b', v) → Moves b hand b' hand s) (herror : ∀ f, r = .error f → s = {}) :
    Moves b hand (b.attempt r).broker hand s := by
  cases r with
  | error f =>
    rw [herror f rfl]
    exact Moves.refl
  | ok p => exact hok p.1 p.2 rfl

theorem moves_issue (b : Broker) (hand : List Unacked) : Moves b hand b.issue hand {} :=
  Move.moves (.idle rfl rfl rfl rfl)

theorem moves_schedule (b : Broker) (hand : List Unacked) (id : Nat) :
    Moves b hand (b.schedule id) hand {} := Move.moves (.idle rfl rfl rfl rfl)

/-- Declaring a queue is at most one move. -/
theorem moves_declareQueue {name reply : Value} {flags : QueueFlags}
    (h : b.declareQueue name flags = .ok (b', reply)) : Moves b hand b' hand {} := by
  simp only [declareQueue] at h
  split at h
  · split at h
    · cases h
      exact Moves.refl
    · exact nomatch h
  · cases h
    exact Move.declared.moves

theorem moves_declareQueueSpec (b : Broker) (hand : List Unacked) (spec : Option Value) :
    Moves b hand (b.declareQueueSpec spec).broker hand {} := by
  simp only [declareQueueSpec]
  split
  · exact moves_attempt (fun _ _ => moves_declareQueue) fun _ _ => rfl
  · exact (moves_issue b hand).trans
      (moves_attempt (fun _ _ => moves_declareQueue) fun _ _ => rfl)

/-- Declaring an exchange changes neither queues nor channels. -/
theorem moves_declareExchange {spec reply : Value}
    (h : b.declareExchange spec = .ok (b', reply)) : Moves b hand b' hand {} := by
  simp only [declareExchange, Bind.bind, Except.bind] at h
  split at h
  · exact nomatch h
  · split at h
    · exact nomatch h
    · split at h
      · split at h
        · cases h
          exact Moves.refl
        · exact nomatch h
      · cases h
        exact Move.moves (.idle rfl rfl rfl rfl)

/-- Binding changes neither queues nor channels. -/
theorem moves_bind {queueName exchangeName key reply : Value}
    (h : b.bind queueName exchangeName key = .ok (b', reply)) : Moves b hand b' hand {} := by
  simp only [Broker.bind, Bind.bind, Except.bind] at h
  split at h
  · exact nomatch h
  · split at h
    · exact nomatch h
    · cases h
      exact Move.moves (.idle rfl rfl rfl rfl)

/-- Deleting an exchange changes neither queues nor channels. -/
theorem moves_deleteExchange {name reply : Value}
    (h : b.deleteExchange name = .ok (b', reply)) : Moves b hand b' hand {} := by
  simp only [deleteExchange, Bind.bind, Except.bind] at h
  split at h
  · exact nomatch h
  · cases h
    exact Move.moves (.idle rfl rfl rfl rfl)

/-- Purging a queue is a move. -/
theorem moves_purge {name reply : Value} (hq : b.queue? name = some q)
    (h : b.purge name = .ok (b', reply)) : Moves b hand b' hand (retiring .purged q.messages) := by
  simp only [purge, Bind.bind, Except.bind, queue, hq] at h
  cases h
  exact Move.moves (.purged (mem_of_queue? hq))

/-- No consumer of a queue shares its channel and its tag, or its number, with the consumer. -/
def Clear (b : Broker) (s : Consumer) : Prop :=
  ∀ q ∈ b.queues, ∀ s' ∈ q.consumers, s'.channel = s.channel →
    s'.tag.sameKey s.tag = false ∧ s'.number ≠ s.number

/-- Forgetting consumers that no queue has is a chain of moves. -/
theorem moves_forget (hb : b.Attended) {ss : List Consumer} (hclear : ∀ s ∈ ss, b.Clear s) :
    Moves b hand (ss.foldl forget b) hand {} := by
  induction ss generalizing b with
  | nil => exact Moves.refl
  | cons s ss ih =>
    have hforget : Move b hand (b.forget s) hand {} := by
      refine .unregistered fun c hc q hq s' hs' hch => ?_
      obtain ⟨c', hc', _, r, hr, hstands⟩ := hb.registered q hq s' hs'
      rw [hch] at hc'
      obtain rfl := Option.some.inj (hc'.symm.trans hc)
      have hapart := hclear s (List.mem_cons_self ..) q hq s' hs' hch
      refine ⟨r, hr, hstands, ?_⟩
      rw [hstands.tag, hstands.number, hapart.1, beq_false_of_ne hapart.2]
      rfl
    exact hforget.moves.trans
      (ih (hb.move hforget) fun s' hs' => hclear s' (List.mem_cons_of_mem _ hs'))

/-- Once a queue is gone, no other queue has a consumer like one of its own. -/
theorem Attended.clear (hb : b.Attended) (hq : q ∈ b.queues) {s : Consumer}
    (hs : s ∈ q.consumers) : (b.removeQueue q.id).Clear s := by
  intro q' hq' s' hs' hch
  obtain ⟨hq', hne⟩ := mem_removeQueue.mp hq'
  obtain ⟨c, hc, _, r, hr, hstands⟩ := hb.registered q hq s hs
  obtain ⟨c', hc', _, r', hr', hstands'⟩ := hb.registered q' hq' s' hs'
  rw [hch] at hc'
  obtain rfl := Option.some.inj (hc'.symm.trans hc)
  have hdistinct : r' ≠ r := by
    rintro rfl
    exact hne (Option.some.inj (hstands'.queue.symm.trans hstands.queue))
  have hapart := hb.apart_of_ne (List.mem_of_getElem? hc) hr' hr hdistinct
  rw [← hstands.tag, ← hstands'.tag, ← hstands.number, ← hstands'.number]
  exact hapart

/-- Deleting a queue is a chain of moves. -/
theorem moves_deleteQueue (hb : b.Attended) {name : Value} (hq : b.queue? name = some q) :
    Moves b hand (b.deleteQueue name).broker hand (retiring .deleted q.messages) := by
  simp only [deleteQueue, queue, hq]
  have hremoved : Move b hand (b.removeQueue q.id) hand (retiring .deleted q.messages) :=
    .removed _ (mem_of_queue? hq)
  refine hremoved.moves.trans_nil (moves_forget (hb.move hremoved) fun s hs => ?_)
  exact hb.clear (mem_of_queue? hq) (List.mem_of_mem_take hs)

/-- The tag that a consumer gets, asked for or not. -/
def tagOf (b : Broker) (options : Value) : Value :=
  let asked := options.field "consumerTag"
  if asked.isTruthy then asked else .text ("amq.ctag-" ++ b.nextIdentity)

/-- Starting a consumer is a chain of moves, if it is new to its channel. -/
theorem moves_consume {number : Nat} {name options reply : Value} {c : Channel}
    (hopen : b.openChannel ch = .ok c)
    (hnew : (b.queue? name).isSome → c.IsNew number (b.tagOf options))
    (h : b.consume ch number name options = .ok (b', reply)) : Moves b hand b' hand {} := by
  obtain ⟨hc, hclosed⟩ := openChannel_eq_ok.mp hopen
  simp only [consume, Bind.bind, Except.bind, queue] at h
  cases hq : b.queue? name with
  | none => simp only [hq, reduceCtorEq] at h
  | some q =>
    have hnew := hnew (Option.isSome_of_eq_some hq)
    simp only [hq, tagOf] at h hnew
    split at h
    · rename_i hasked
      rw [if_pos hasked] at hnew
      cases h
      refine Moves.trans_nil ?_ (moves_schedule ..)
      exact Move.moves (.started hq hc hclosed hnew)
    · rename_i hasked
      rw [if_neg hasked] at hnew
      cases h
      refine Moves.trans_nil ?_ (moves_schedule ..)
      refine (moves_issue b hand).trans_nil ?_
      exact Move.moves (.started hq hc hclosed hnew)

/-- Cancelling a consumer is a chain of moves. -/
theorem moves_cancel (hb : b.Attended) {c : Channel} {tag : Value} {r : Registered}
    (hc : b.channels[ch]? = some c) (hr : c.consumers.find? (·.tag.sameKey tag) = some r) :
    Moves b hand (b.cancel ch c tag) hand (retiring .autoDeleted (b.dropped r)) := by
  simp only [cancel, hr]
  rw [removeConsumer_modifyChannel]
  refine (moves_removeConsumer b hand r).trans_nil (Move.moves (.unregistered ?_))
  intro c' hc' q hq s hs hch
  rw [channels_removeConsumer] at hc'
  obtain rfl := Option.some.inj (hc'.symm.trans hc)
  have hthinner := thinner_removeConsumer b r
  obtain ⟨q₀, hq₀, hid, hsubset⟩ := hthinner.consumers q hq
  obtain ⟨c, hc, _, r', hr', hstands⟩ := hb.registered q₀ hq₀ s (hsubset hs)
  rw [hch] at hc
  obtain rfl := Option.some.inj (hc'.symm.trans hc)
  have hholder : b.holder? r'.queue = some q.id := hid ▸ hstands.queue
  refine ⟨r', hr', ⟨hstands.tag, hstands.number, hthinner.holders q hq _ hholder⟩, ?_⟩
  -- an entry of the same key is the cancelled one, whose consumers are gone
  have hne : r' ≠ r := by
    rintro rfl
    exact number_ne_of_removeConsumer hq hs hholder hstands.number.symm
  have hapart := hb.apart_of_ne (List.mem_of_getElem? hc) hr' (List.mem_of_find?_eq_some hr) hne
  rw [Bool.not_eq_true', Bool.eq_false_iff]
  intro hsame
  have htag : r.tag.sameKey tag = true := by simpa using List.find?_some hr
  have hkey : r'.tag.sameKey r.tag = true := by
    rw [Value.sameKey_congr hsame, Value.sameKey_comm, htag]
  exact nomatch hapart.1.symm.trans hkey

/-- Among entries of different tags one is found by its tag, and the others do not have it. -/
theorem perm_of_find? {entries : List (Nat × Unacked)} {n : Nat} {u : Unacked}
    (hdistinct : (entries.map (·.1)).Nodup) (h : entries.find? (·.1 == n) = some (n, u)) :
    entries.Perm ((n, u) :: entries.filter (·.1 != n)) := by
  obtain ⟨_, before, after, rfl, hbefore⟩ := List.find?_eq_some_iff_append.mp h
  have hbefore (e : Nat × Unacked) (he : e ∈ before) : (e.1 != n) = true := hbefore e he
  have hafter (e : Nat × Unacked) (he : e ∈ after) : (e.1 != n) = true := by
    rw [List.map_append, List.map_cons, List.nodup_append, List.nodup_cons] at hdistinct
    rw [bne_iff_ne]
    rintro rfl
    exact hdistinct.2.1.1 (List.mem_map.mpr ⟨e, he, rfl⟩)
  have hrest : (before ++ (n, u) :: after).filter (·.1 != n) = before ++ after := by
    rw [List.filter_append, List.filter_cons_of_neg (by simp), List.filter_eq_self.mpr hbefore,
      List.filter_eq_self.mpr hafter]
  rw [hrest]
  exact List.perm_middle

/-- A settlement takes copies off an open channel, which together with what is left are those that
waited. -/
theorem settle_eq_ok {tag : Tag} {multiple : Bool} {us : List Unacked}
    (h : b.settle ch tag multiple = .ok (b', us)) :
    ∃ c rest, b.channels[ch]? = some c ∧ rest.Sublist c.unacked ∧
      b' = b.modifyChannel ch (fun c => { c with unacked := rest }) ∧
      (c.Tagged → (c.unacked.map (·.2)).Perm (us ++ rest.map (·.2))) := by
  simp only [settle, Bind.bind, Except.bind] at h
  cases hopen : b.openChannel ch with
  | error f => simp only [hopen, reduceCtorEq] at h
  | ok c =>
    simp only [hopen] at h
    split at h
    · exact nomatch h
    · rename_i n entry hfind
      obtain ⟨n', _, hfind⟩ := Option.bind_eq_some_iff.mp hfind
      obtain rfl : n = n' := by simpa using List.find?_some hfind
      have hopen := (openChannel_eq_ok.mp hopen).1
      split at h <;> cases h
      · refine ⟨c, _, hopen, List.filter_sublist.trans List.filter_sublist, rfl, ?_⟩
        intro htagged
        have hperm := (perm_of_find? htagged.distinct hfind).trans
          ((List.filter_append_perm (·.1 < n) _).symm.cons (n, entry))
        simpa using hperm.map (·.2)
      · refine ⟨c, _, hopen, List.filter_sublist, rfl, ?_⟩
        exact fun htagged => (perm_of_find? htagged.distinct hfind).map _

/-- Taking the copies of a settlement off a channel is a move. -/
theorem moves_settle (hb : b.Keyed) {tag : Tag} {multiple : Bool} {us : List Unacked}
    (h : b.settle ch tag multiple = .ok (b', us)) : Moves b hand b' (us ++ hand) {} := by
  obtain ⟨c, rest, hc, hrest, rfl, hperm⟩ := settle_eq_ok h
  exact Move.moves (.taken hc hrest (hperm (hb.tagged c (List.mem_of_getElem? hc))))

/-- Acknowledging copies is a chain of moves. -/
theorem moves_ack (hb : b.Keyed) (tag : Tag) (multiple : Bool) :
    Moves b hand (b.attempt ((b.settle ch tag multiple).map fun (b, _) => (b, .undefined))).broker
      hand (b.settled ch tag multiple fun _ us =>
        retiring .acknowledged (us.map (·.copy.marked))) := by
  simp only [settled]
  cases h : b.settle ch tag multiple with
  | error f => exact Moves.refl
  | ok p => exact (moves_settle hb h).trans (Move.moves (.retired .acknowledged))

/-- Rejecting copies is a chain of moves. -/
theorem moves_nack (hb : b.Keyed) (tag : Tag) (multiple requeue : Bool) :
    Moves b hand
      (b.attempt ((b.settle ch tag multiple).map fun (b, us) =>
        (if requeue then b.requeue us else b, .undefined))).broker
      hand (b.settled ch tag multiple fun b us =>
        if requeue then retiring .orphaned (b.orphans us)
        else retiring .rejected (us.map (·.copy.marked))) := by
  simp only [settled]
  cases h : b.settle ch tag multiple with
  | error f => exact Moves.refl
  | ok p =>
    have hsettled : Moves b hand _ (p.2 ++ hand) {} := moves_settle hb h
    cases requeue with
    | false => exact hsettled.trans (Move.moves (.retired .rejected))
    | true => exact hsettled.trans (moves_requeue ..)

/-- Publishing uses up a number for each copy. -/
theorem copied_le_copyTo (b : Broker) (c : Copy) (names : List Value) :
    b.copied ≤ (b.copyTo c names).1.copied := by
  induction names generalizing b with
  | nil => exact Nat.le_refl _
  | cons name names ih =>
    simp only [copyTo]
    split
    · rename_i q _
      exact Nat.le_trans (Nat.le_succ _) (ih (b.append q c))
    · exact Nat.le_refl _

/-- A copy that is put on several queues gets the next number on the first of them. -/
theorem range'_copyTo_append (b : Broker) (q : Queue) (c : Copy) (names : List Value) :
    List.range' b.copied (((b.append q c).copyTo c names).1.copied - b.copied) =
      b.copied :: List.range' (b.append q c).copied
        (((b.append q c).copyTo c names).1.copied - (b.append q c).copied) := by
  have hle := copied_le_copyTo (b.append q c) c names
  have hcopied : (b.append q c).copied = b.copied + 1 := rfl
  have hcount : ((b.append q c).copyTo c names).1.copied - b.copied =
      ((b.append q c).copyTo c names).1.copied - (b.append q c).copied + 1 := by omega
  rw [hcount, List.range'_succ, hcopied]

/-- Putting a copy on several queues is a chain of moves. -/
theorem moves_copyTo (b : Broker) (hand : List Unacked) {c : Copy} (hc : c.redelivered = false)
    (names : List Value) :
    Moves b hand (b.copyTo c names).1 hand
      { made := (List.range' b.copied ((b.copyTo c names).1.copied - b.copied)).map fun serial =>
          { c with serial } } := by
  induction names generalizing b with
  | nil =>
    simp only [copyTo, Nat.sub_self]
    exact Moves.refl
  | cons name names ih =>
    simp only [copyTo, queue]
    cases hq : b.queue? name with
    | none =>
      simp only [Nat.sub_self]
      exact Moves.refl
    | some q =>
      simp only []
      rw [range'_copyTo_append]
      exact (Move.moves (.put (mem_of_queue? hq) hc)).trans (ih (b.append q c))

/-- A publish leaves the broker that its routing leaves. -/
theorem broker_publish (b : Broker) (exchangeName key properties body : Value) :
    (b.publish exchangeName key properties body).broker =
      (b.route ⟨0, exchangeName, key, properties, bytesOf body, false⟩).1 := by
  rw [publish]
  split <;> rename_i h <;> rw [h]

/-- Publishing is a chain of moves. -/
theorem moves_publish (b : Broker) (hand : List Unacked)
    (exchangeName key properties body : Value) :
    Moves b hand (b.publish exchangeName key properties body).broker hand
      { made := b.published exchangeName key properties body } := by
  simp only [published, broker_publish, route]
  split
  · exact moves_copyTo b hand rfl _
  · simp only [Nat.sub_self]
    exact Moves.refl

/-! ## Serving queues -/

/-- Handing out copies is a chain of moves. -/
theorem moves_handOut (b : Broker) (hand : List Unacked) (id bound : Nat) :
    Moves b hand (b.handOut id bound).1 hand (handing (b.handovers id bound)) := by
  induction bound generalizing b with
  | zero => exact Moves.refl
  | succ bound ih =>
    simp only [handOut, handovers]
    cases h : b.handOut? id with
    | none => exact Moves.refl
    | some next =>
      obtain ⟨b', e⟩ := next
      obtain ⟨q, copy, rest, s, c, hq, hmessages, hs, hc, hnext, _, rfl⟩ := handOut?_eq_some h
      simp only [hnext]
      rw [Books.handing_cons]
      exact (Move.moves (.handed (mem_of_queueById? hq) hmessages hs hc)).trans (ih _)

/-- Serving the next scheduled queue is a chain of moves. -/
theorem moves_serve (b : Broker) (hand : List Unacked) :
    Moves b hand b.serve.1 hand (handing b.served) := by
  simp only [serve, served, queueById?]
  cases b.scheduled with
  | nil => exact Moves.refl
  | cons id rest =>
    have hscheduled : Moves b hand { b with scheduled := rest } hand {} :=
      Move.moves (.idle rfl rfl rfl rfl)
    cases hq : b.queues.find? (·.id == id) with
    | none =>
      simp only [hq]
      exact hscheduled
    | some q =>
      simp only [hq]
      exact hscheduled.trans (moves_handOut ..)

/-! ## Steps -/

/-- If the event starts a consumer, it is new to its channel: no live consumer of the channel has
its tag, and none has its number. -/
def Event.IsNew (b : Broker) : Event → Prop
  | .request ch number (.basicConsume name options) =>
    (b.queue? name).isSome → ∀ c ∈ b.channels[ch]?, c.IsNew number (b.tagOf options)
  | _ => True

/-- What an open channel is asked for is a chain of moves. -/
theorem moves_perform (hkeyed : b.Keyed) (hattended : b.Attended) {c : Channel} {number : Nat}
    {p : Amqp.Channel.Primitive} (hopen : b.openChannel ch = .ok c)
    (hnew : (Event.request ch number p).IsNew b) :
    Moves b hand (b.perform ch number c p).broker hand (b.performed ch c p) := by
  obtain ⟨hc, _⟩ := openChannel_eq_ok.mp hopen
  cases p with
  | close params => exact moves_endChannel hattended ..
  | abort params => exact moves_endChannel hattended ..
  | queueDeclare spec => exact moves_declareQueueSpec ..
  | exchangeDeclare spec =>
    exact moves_attempt (fun _ _ => moves_declareExchange) fun _ _ => rfl
  | queueBind queueName exchangeName key =>
    exact moves_attempt (fun _ _ => moves_bind) fun _ _ => rfl
  | basicPublish exchangeName key properties body => exact moves_publish ..
  | queueDelete name =>
    simp only [perform, performed]
    cases hq : b.queue? name with
    | none =>
      simp only [deleteQueue, queue, hq]
      exact Moves.refl
    | some q => exact moves_deleteQueue hattended hq
  | exchangeDelete name =>
    exact moves_attempt (fun _ _ => moves_deleteExchange) fun _ _ => rfl
  | queuePurge name =>
    simp only [perform, performed]
    cases hq : b.queue? name with
    | none =>
      simp only [purge, queue, hq]
      exact Moves.refl
    | some q =>
      refine moves_attempt (fun _ _ => moves_purge hq) fun f hf => ?_
      simp only [purge, queue, hq, Bind.bind, Except.bind, reduceCtorEq] at hf
  | basicConsume queueName options =>
    refine moves_attempt (fun _ _ => moves_consume hopen fun hq => ?_) fun _ _ => rfl
    exact hnew hq c hc
  | basicCancel tag =>
    simp only [perform, performed]
    cases hr : c.consumers.find? (·.tag.sameKey tag) with
    | none =>
      simp only [cancel, hr]
      exact Moves.refl
    | some r => exact moves_cancel hattended hc hr
  | basicQos count global => exact Move.moves (.noted fun _ => ⟨rfl, rfl, rfl, rfl⟩)
  | basicAck tag multiple => exact moves_ack hkeyed ..
  | basicNack tag multiple requeue => exact moves_nack hkeyed ..

/-- Every step is a chain of moves. -/
theorem moves_step (hkeyed : b.Keyed) (hattended : b.Attended) {e : Event} (hnew : e.IsNew b) :
    Moves b hand (b.step e).broker hand (b.entries e) := by
  cases e with
  | openChannel =>
    simp only [step, openNext, entries]
    split
    · exact Move.moves (.idle rfl rfl rfl rfl)
    · exact Move.opened.moves
  | request ch number p =>
    simp only [step, request, entries]
    cases hopen : b.openChannel ch with
    | ok c => exact moves_perform hkeyed hattended hopen hnew
    | error f =>
      have hended (verb : String) (params : Option Value) :
          Moves b hand (b.endChannel ch verb params).broker hand {} :=
        endedBy_of_closed hopen verb params ▸ moves_endChannel hattended ch verb params
      cases p
      case close params => exact hended ..
      case abort params => exact hended ..
      all_goals exact Moves.refl
  | serve => exact moves_serve ..
  | disconnect error =>
    have hmoves : Moves b hand _ hand _ :=
      moves_disconnect hattended error (List.range b.channels.length)
    rwa [← fst_disconnect] at hmoves
  | refuseNext error => exact Move.moves (.idle rfl rfl rfl rfl)

end Amqp.Broker
