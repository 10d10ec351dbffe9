import Amqp.Proofs.Broker.Moves
import Mathlib.Data.List.Pairwise

/-!
# What all brokers have in common

Queues have numbers of their own, and so have the copies that one channel has handed out. Every
consumer of a queue belongs to an open channel whose registry has an entry for it, so that a channel
that ends takes all its consumers along and nothing is handed to it any more. Moves keep this up.
-/

namespace Amqp

namespace Value

/-- Being one key goes both ways. -/
theorem sameKey_comm (v w : Value) : v.sameKey w = w.sameKey v := by
  cases v <;> cases w <;> simp only [sameKey, Bool.beq_comm]

/-- Values that are one key are the same keys as others. -/
theorem sameKey_congr {v w : Value} (h : v.sameKey w = true) (x : Value) :
    v.sameKey x = w.sameKey x := by
  cases v <;> cases w <;> simp only [sameKey, beq_iff_eq, reduceCtorEq] at h <;> cases x <;>
    simp only [sameKey, h]

end Value

namespace Broker

open Books (retiring handing)

variable {b b' : Broker} {hand hand' : List Unacked} {s : Books} {id ch : Nat} {q : Queue}
  {f : Channel → Channel}

/-! ## Numbers -/

/-- The copies that wait on a channel have tags of their own, which have been given out. -/
structure Channel.Tagged (c : Channel) : Prop where
  distinct : (c.unacked.map (·.1)).Nodup
  assigned : ∀ e ∈ c.unacked, e.1 < c.nextTag

/-- Queues have numbers of their own, which have been given out, and so have waiting copies. -/
structure Keyed (b : Broker) : Prop where
  distinct : (b.queues.map (·.id)).Nodup
  declared : ∀ q ∈ b.queues, q.id < b.declared
  tagged : ∀ c ∈ b.channels, c.Tagged

/-- A part of what waits is tagged as well. -/
theorem Channel.Tagged.sublist {c : Channel} (h : c.Tagged) {rest : List (Nat × Unacked)}
    (hrest : rest.Sublist c.unacked) : Channel.Tagged { c with unacked := rest } :=
  ⟨h.distinct.sublist (hrest.map _), fun e he => h.assigned e (hrest.subset he)⟩

/-- The next tag is a new one. -/
theorem Channel.Tagged.concat {c : Channel} (h : c.Tagged) (u : Unacked) :
    Channel.Tagged
      { c with nextTag := c.nextTag + 1, unacked := c.unacked ++ [(c.nextTag, u)] } := by
  constructor
  · have hnew (k : Nat) (u' : Unacked) (he : (k, u') ∈ c.unacked) : k ≠ c.nextTag :=
      Nat.ne_of_lt (h.assigned _ he)
    simpa [List.nodup_append] using ⟨h.distinct, hnew⟩
  · intro e he
    rcases List.mem_append.mp he with he | he
    · exact Nat.lt_succ_of_lt (h.assigned e he)
    · rw [List.mem_singleton.mp he]
      exact Nat.lt_succ_self _

/-- The numbers of queues stay where only their contents change. -/
theorem ids_modifyQueue {f : Queue → Queue} (hf : ∀ q, (f q).id = q.id) :
    (b.modifyQueue id f).queues.map (·.id) = b.queues.map (·.id) := by
  rw [modifyQueue, List.map_map]
  apply List.map_congr_left
  intro q _
  simp only [Function.comp_apply]
  split
  · exact hf q
  · rfl

namespace Keyed

/-- Numbers are kept where no queue is added and no channel changes. -/
theorem of_sublist (h : b.Keyed)
    (hids : (b'.queues.map (·.id)).Sublist (b.queues.map (·.id)))
    (hdeclared : b'.declared = b.declared) (hchannels : b'.channels = b.channels) : b'.Keyed := by
  refine ⟨h.distinct.sublist hids, ?_, hchannels ▸ h.tagged⟩
  intro q' hq'
  obtain ⟨q, hq, hid⟩ := List.mem_map.mp (hids.subset (List.mem_map.mpr ⟨q', hq', rfl⟩))
  rw [hdeclared, ← hid]
  exact h.declared q hq

/-- Numbers are kept where the queues keep theirs and no channel changes. -/
theorem of_ids (h : b.Keyed) (hids : b'.queues.map (·.id) = b.queues.map (·.id))
    (hdeclared : b'.declared = b.declared) (hchannels : b'.channels = b.channels) : b'.Keyed :=
  h.of_sublist (hids ▸ List.Sublist.refl _) hdeclared hchannels

/-- Numbers are kept where only the contents of a queue change. -/
theorem modifyQueue (h : b.Keyed) {f : Queue → Queue} (hf : ∀ q, (f q).id = q.id) :
    (b.modifyQueue id f).Keyed := h.of_ids (ids_modifyQueue hf) rfl rfl

/-- Numbers are kept where a channel keeps its tags apart. -/
theorem modifyChannel (h : b.Keyed)
    (hf : ∀ c, b.channels[ch]? = some c → c.Tagged → (f c).Tagged) :
    (b.modifyChannel ch f).Keyed := by
  refine ⟨h.distinct, h.declared, ?_⟩
  intro c' hc'
  rcases mem_modifyChannel hc' with hc' | ⟨c, hc, rfl⟩
  · exact h.tagged c' hc'
  · exact hf c hc (h.tagged c (List.mem_of_getElem? hc))

/-- Moves keep the numbers. -/
theorem move (hb : b.Keyed) (h : Move b hand b' hand' s) : b'.Keyed := by
  cases h with
  | idle hqueues hchannels hdeclared _ =>
    exact hb.of_ids (congrArg _ hqueues) hdeclared hchannels
  | noted hf =>
    refine hb.modifyChannel fun c _ hc => ⟨?_, ?_⟩
    · rw [(hf c).unacked]
      exact hc.distinct
    · rw [(hf c).unacked, (hf c).nextTag]
      exact hc.assigned
  | opened =>
    refine ⟨hb.distinct, hb.declared, ?_⟩
    intro c hc
    rcases List.mem_append.mp hc with hc | hc
    · exact hb.tagged c hc
    · rw [List.mem_singleton.mp hc]
      exact ⟨List.nodup_nil, fun e he => nomatch he⟩
  | declared =>
    have hnew (q : Queue) (hq : q ∈ b.queues) : q.id ≠ b.declared :=
      Nat.ne_of_lt (hb.declared q hq)
    refine ⟨by simpa [List.nodup_append] using ⟨hb.distinct, hnew⟩, ?_, hb.tagged⟩
    intro q hq
    rcases List.mem_append.mp hq with hq | hq
    · exact Nat.lt_succ_of_lt (hb.declared q hq)
    · rw [List.mem_singleton.mp hq]
      exact Nat.lt_succ_self _
  | put _ _ => exact hb.of_ids (ids_modifyQueue fun _ => rfl) rfl rfl
  | purged _ => exact hb.modifyQueue fun _ => rfl
  | removed _ _ => exact hb.of_sublist (List.filter_sublist.map _) rfl rfl
  | thinned _ _ => exact hb.modifyQueue fun _ => rfl
  | unregistered _ => exact hb.modifyChannel fun c _ hc => ⟨hc.distinct, hc.assigned⟩
  | started _ _ _ _ =>
    exact (hb.modifyQueue (by intro; rfl)).modifyChannel
      (by exact fun c _ hc => ⟨hc.distinct, hc.assigned⟩)
  | taken hc hrest _ =>
    refine hb.modifyChannel fun c' hc' htagged => htagged.sublist ?_
    rwa [Option.some.inj (hc'.symm.trans hc)]
  | ended _ _ => exact hb.modifyChannel fun c _ hc => ⟨List.nodup_nil, fun e he => nomatch he⟩
  | retired _ => exact hb
  | @returned _ u =>
    rcases giveBack_cases b u with ⟨hsame, _⟩ | ⟨q, _, _, hback⟩
    · rwa [hsame]
    · rw [hback]
      exact hb.of_ids (ids_modifyQueue fun _ => rfl) rfl rfl
  | @handed _ q copy _ s c _ _ _ _ =>
    have hturned : Keyed { b with turns := b.turns + 1 } := hb.of_ids rfl rfl rfl
    refine (hturned.modifyQueue (by intro; rfl)).modifyChannel fun c _ hc => ?_
    cases s.mode with
    | manual => exact hc.concat _
    | auto => exact ⟨hc.distinct, fun e he => Nat.lt_succ_of_lt (hc.assigned e he)⟩

/-- A chain of moves keeps the numbers. -/
theorem moves (hb : b.Keyed) (h : Moves b hand b' hand' s) : b'.Keyed := by
  induction h with
  | refl => exact hb
  | next _ hmove ih => exact ih.move hmove

end Keyed

/-! ## Consumers -/

/-- The entries have different numbers, and their tags are different keys. -/
def Registered.Apart (r r' : Registered) : Prop :=
  r.tag.sameKey r'.tag = false ∧ r.number ≠ r'.number

/-- There are no queues and no consumers but those of before, and names still mean the queues that
are left. -/
structure Thinner (b b' : Broker) : Prop where
  consumers : ∀ q' ∈ b'.queues, ∃ q ∈ b.queues, q.id = q'.id ∧ q'.consumers ⊆ q.consumers
  holders : ∀ q' ∈ b'.queues, ∀ name, b.holder? name = some q'.id → b'.holder? name = some q'.id

namespace Thinner

theorem of_queues (h : b'.queues = b.queues) : b.Thinner b' := by
  constructor
  · rw [h]
    exact fun q hq => ⟨q, hq, rfl, List.Subset.refl _⟩
  · intro q _ name hname
    rwa [holder?, queue?, h]

theorem trans {b'' : Broker} (h : b.Thinner b') (h' : b'.Thinner b'') : b.Thinner b'' := by
  constructor
  · intro q'' hq''
    obtain ⟨q', hq', hid', hsubset'⟩ := h'.consumers q'' hq''
    obtain ⟨q, hq, hid, hsubset⟩ := h.consumers q' hq'
    exact ⟨q, hq, hid.trans hid', List.Subset.trans hsubset' hsubset⟩
  · intro q'' hq'' name hname
    obtain ⟨q', hq', hid', _⟩ := h'.consumers q'' hq''
    refine h'.holders q'' hq'' name ?_
    rw [← hid'] at hname ⊢
    exact h.holders q' hq' name hname

/-- A queue changes and gets no new consumers. -/
theorem modifyQueue {f : Queue → Queue} (hf : ∀ q, (f q).id = q.id ∧ (f q).name = q.name)
    (hconsumers : ∀ q ∈ b.queues, q.id = id →
      ∃ q₀ ∈ b.queues, q₀.id = id ∧ (f q).consumers ⊆ q₀.consumers) :
    b.Thinner (b.modifyQueue id f) := by
  refine ⟨?_, fun _ _ _ hname => (holder?_modifyQueue hf _).trans hname⟩
  intro q' hq'
  obtain ⟨q, hq, ⟨hid, rfl⟩ | ⟨_, rfl⟩⟩ := mem_modifyQueue hq'
  · obtain ⟨q₀, hq₀, hid₀, hsubset⟩ := hconsumers q hq hid
    exact ⟨q₀, hq₀, hid₀.trans (hid.symm.trans (hf q).1.symm), hsubset⟩
  · exact ⟨q', hq, rfl, List.Subset.refl _⟩

/-- A queue keeps only some of its consumers. -/
theorem thinned {rest : List Consumer} (hq : q ∈ b.queues) (hrest : rest ⊆ q.consumers) :
    b.Thinner (b.modifyQueue q.id fun q => { q with consumers := rest }) :=
  modifyQueue (fun _ => ⟨rfl, rfl⟩) fun _ _ _ => ⟨q, hq, rfl, hrest⟩

/-- A queue goes. -/
theorem removeQueue : b.Thinner (b.removeQueue id) := by
  constructor
  · exact fun q hq => ⟨q, (mem_removeQueue.mp hq).1, rfl, List.Subset.refl _⟩
  · exact fun q hq _ hname => holder?_removeQueue hname (mem_removeQueue.mp hq).2

end Thinner

/-- Every consumer of a queue belongs to an open channel that has registered it, and nothing waits
on a channel that has ended. -/
structure Attended (b : Broker) : Prop where
  apart : ∀ c ∈ b.channels, c.consumers.Pairwise Registered.Apart
  registered : ∀ q ∈ b.queues, ∀ s ∈ q.consumers, ∃ c, b.channels[s.channel]? = some c ∧
    c.closed = false ∧ ∃ r ∈ c.consumers, r.StandsFor b q s
  emptied : ∀ c ∈ b.channels, c.closed = true → c.unacked = []

/-- Two entries of one channel are apart. -/
theorem Attended.apart_of_ne (h : b.Attended) {c : Channel} (hc : c ∈ b.channels)
    {r r' : Registered} (hr : r ∈ c.consumers) (hr' : r' ∈ c.consumers) (hne : r ≠ r') :
    r.Apart r' := by
  have hsymm : Std.Symm Registered.Apart :=
    ⟨fun r r' hapart => ⟨(Value.sameKey_comm _ _).trans hapart.1, hapart.2.symm⟩⟩
  exact (h.apart c hc).forall hr hr' hne

/-- A consumer whose tag is new gets an entry at the end of the registry. -/
theorem register_of_new {r : Registered} {rs : List Registered}
    (h : ∀ r' ∈ rs, r'.tag.sameKey r.tag = false) : register r rs = rs ++ [r] := by
  induction rs with
  | nil => rfl
  | cons r' rs ih =>
    rw [register, h r' (List.mem_cons_self ..), ih fun r' hr' => h r' (List.mem_cons_of_mem _ hr')]
    rfl

namespace Attended

/-- Consumers stay attended where queues only lose some, and no channel changes. -/
theorem of_thinner (h : b.Attended) (hthinner : b.Thinner b')
    (hchannels : b'.channels = b.channels) : b'.Attended := by
  refine ⟨hchannels ▸ h.apart, ?_, hchannels ▸ h.emptied⟩
  intro q' hq' s hs
  obtain ⟨q, hq, hid, hsubset⟩ := hthinner.consumers q' hq'
  obtain ⟨c, hc, hopen, r, hr, htag, hnumber, hqueue⟩ := h.registered q hq s (hsubset hs)
  refine ⟨c, hchannels ▸ hc, hopen, r, hr, htag, hnumber, hthinner.holders q' hq' _ ?_⟩
  rw [hqueue, hid]

/-- Consumers stay attended where no queue and no channel changes. -/
theorem of_same (h : b.Attended) (hqueues : b'.queues = b.queues)
    (hchannels : b'.channels = b.channels) : b'.Attended :=
  h.of_thinner (Thinner.of_queues hqueues) hchannels

/-- Consumers stay attended where the copies on a queue change. -/
theorem modifyMessages (h : b.Attended) (id : Nat) (f : List Copy → List Copy) :
    (b.modifyQueue id fun q => { q with messages := f q.messages }).Attended :=
  h.of_thinner (Thinner.modifyQueue (fun _ => ⟨rfl, rfl⟩) fun q hq hid =>
    ⟨q, hq, hid, List.Subset.refl _⟩) rfl

/-- Consumers stay attended where a channel changes but keeps the entries for them. -/
theorem modifyChannel (h : b.Attended)
    (hf : ∀ c, b.channels[ch]? = some c → (f c).consumers.Pairwise Registered.Apart ∧
      ((f c).closed = true → (f c).unacked = []))
    (hkept : ∀ c, b.channels[ch]? = some c → ∀ q ∈ b.queues, ∀ s ∈ q.consumers, s.channel = ch →
      ∀ r ∈ c.consumers, r.StandsFor b q s →
        (f c).closed = c.closed ∧ ∃ r ∈ (f c).consumers, r.StandsFor b q s) :
    (b.modifyChannel ch f).Attended := by
  refine ⟨?_, ?_, ?_⟩
  · intro c' hc'
    rcases mem_modifyChannel hc' with hc' | ⟨c, hc, rfl⟩
    · exact h.apart c' hc'
    · exact (hf c hc).1
  · intro q hq s hs
    obtain ⟨c, hc, hopen, r, hr, hstands⟩ := h.registered q hq s hs
    by_cases hch : s.channel = ch
    · rw [hch] at hc ⊢
      obtain ⟨hclosed, r', hr', hstands'⟩ := hkept c hc q hq s hs hch r hr hstands
      refine ⟨f c, ?_, hclosed.trans hopen, r', hr', hstands'.tag, hstands'.number, hstands'.queue⟩
      simp [Broker.modifyChannel, hc]
    · refine ⟨c, ?_, hopen, r, hr, hstands.tag, hstands.number, hstands.queue⟩
      simp [Broker.modifyChannel, hc, Ne.symm hch]
  · intro c' hc' hclosed
    rcases mem_modifyChannel hc' with hc' | ⟨c, hc, rfl⟩
    · exact h.emptied c' hc' hclosed
    · exact (hf c hc).2 hclosed

/-- Consumers stay attended where a channel keeps its registry and does not end. -/
theorem modifyUnacked (h : b.Attended)
    (hf : ∀ c, (f c).consumers = c.consumers ∧ (f c).closed = c.closed)
    (hunacked : ∀ c, b.channels[ch]? = some c → c.closed = true → c.unacked = [] →
      (f c).unacked = []) : (b.modifyChannel ch f).Attended := by
  refine h.modifyChannel ?_ fun c _ _ _ _ _ _ r hr hstands =>
    ⟨(hf c).2, r, (hf c).1 ▸ hr, hstands⟩
  intro c hc
  have hmem := List.mem_of_getElem? hc
  refine ⟨(hf c).1 ▸ h.apart c hmem, fun hclosed => ?_⟩
  rw [(hf c).2] at hclosed
  exact hunacked c hc hclosed (h.emptied c hmem hclosed)

/-- Consumers stay attended where a channel registers another one. -/
theorem register {c : Channel} {number : Nat} {tag : Value} (h : b.Attended)
    (hc : b.channels[ch]? = some c) (hnew : c.IsNew number tag) (name : Value) :
    (b.modifyChannel ch fun c =>
      { c with consumers := register ⟨tag, name, number⟩ c.consumers }).Attended := by
  have hregister : Broker.register ⟨tag, name, number⟩ c.consumers = c.consumers ++ _ :=
    register_of_new fun r hr => (hnew r hr).1
  refine h.modifyChannel ?_ ?_
  · intro c' hc'
    obtain rfl := Option.some.inj (hc'.symm.trans hc)
    have hmem := List.mem_of_getElem? hc
    refine ⟨?_, h.emptied c' hmem⟩
    rw [hregister]
    refine List.pairwise_append.mpr
      ⟨h.apart c' hmem, List.pairwise_singleton _ _, fun r hr r' hr' => ?_⟩
    rw [List.mem_singleton.mp hr']
    exact hnew r hr
  · intro c' hc' _ _ _ _ _ r hr hstands
    obtain rfl := Option.some.inj (hc'.symm.trans hc)
    rw [hregister]
    exact ⟨rfl, r, List.mem_append_left _ hr, hstands⟩

/-- Consumers stay attended where a queue gets one that has an entry. -/
theorem addConsumer (h : b.Attended) {s : Consumer}
    (hs : ∃ c, b.channels[s.channel]? = some c ∧ c.closed = false ∧ ∃ r ∈ c.consumers,
      r.tag = s.tag ∧ r.number = s.number ∧ b.holder? r.queue = some id) :
    (b.modifyQueue id fun q => { q with consumers := q.consumers ++ [s] }).Attended := by
  have hholder (name : Value) : (b.modifyQueue id fun q =>
      { q with consumers := q.consumers ++ [s] }).holder? name = b.holder? name :=
    holder?_modifyQueue (by exact fun _ => ⟨rfl, rfl⟩) name
  refine ⟨h.apart, ?_, h.emptied⟩
  intro q' hq' s' hs'
  obtain ⟨q, hq, hcases⟩ := mem_modifyQueue hq'
  have hid : q'.id = q.id := by
    rcases hcases with ⟨_, rfl⟩ | ⟨_, rfl⟩ <;> rfl
  have hconsumers : s' ∈ q.consumers ∨ q.id = id ∧ s' = s := by
    rcases hcases with ⟨hsame, rfl⟩ | ⟨_, rfl⟩
    · rcases List.mem_append.mp hs' with hs' | hs'
      · exact .inl hs'
      · exact .inr ⟨hsame, List.mem_singleton.mp hs'⟩
    · exact .inl hs'
  rcases hconsumers with hs' | ⟨hq, rfl⟩
  · obtain ⟨c, hc, hopen, r, hr, htag, hnumber, hqueue⟩ := h.registered q hq s' hs'
    exact ⟨c, hc, hopen, r, hr, htag, hnumber, by rw [hholder, hqueue, hid]⟩
  · obtain ⟨c, hc, hopen, r, hr, htag, hnumber, hqueue⟩ := hs
    exact ⟨c, hc, hopen, r, hr, htag, hnumber, by rw [hholder, hqueue, hid, hq]⟩

/-- Moves keep consumers attended. -/
theorem move (hb : b.Attended) (h : Move b hand b' hand' s) : b'.Attended := by
  cases h with
  | idle hqueues hchannels _ _ => exact hb.of_same hqueues hchannels
  | noted hf =>
    refine hb.modifyUnacked (fun c => ⟨(hf c).consumers, (hf c).closed⟩) ?_
    intro c _ _ hempty
    rw [(hf c).unacked, hempty]
  | opened =>
    refine ⟨?_, ?_, ?_⟩
    · intro c hc
      rcases List.mem_append.mp hc with hc | hc
      · exact hb.apart c hc
      · rw [List.mem_singleton.mp hc]
        exact List.Pairwise.nil
    · intro q hq s hs
      obtain ⟨c, hc, hopen, r, hr, hstands⟩ := hb.registered q hq s hs
      refine ⟨c, ?_, hopen, r, hr, hstands.tag, hstands.number, hstands.queue⟩
      exact (List.getElem?_append_left (List.getElem?_eq_some_iff.mp hc).1).trans hc
    · intro c hc hclosed
      rcases List.mem_append.mp hc with hc | hc
      · exact hb.emptied c hc hclosed
      · rw [List.mem_singleton.mp hc]
  | @declared _ name flags =>
    refine ⟨hb.apart, ?_, hb.emptied⟩
    intro q hq s hs
    rcases List.mem_append.mp hq with hq | hq
    · obtain ⟨c, hc, hopen, r, hr, hstands⟩ := hb.registered q hq s hs
      refine ⟨c, hc, hopen, r, hr, hstands.tag, hstands.number, ?_⟩
      obtain ⟨q', hq', hid⟩ := Option.map_eq_some_iff.mp hstands.queue
      rw [queue?] at hq'
      rw [holder?, queue?, List.find?_append, hq', Option.some_or, Option.map_some, hid]
    · rw [List.mem_singleton.mp hq] at hs
      cases hs
  | @put _ q c _ _ =>
    exact (hb.modifyMessages q.id (· ++ [{ c with serial := b.copied }])).of_same rfl rfl
  | @purged _ q _ => exact hb.modifyMessages q.id fun _ => []
  | removed _ _ => exact hb.of_thinner Thinner.removeQueue rfl
  | thinned hq hrest => exact hb.of_thinner (Thinner.thinned hq hrest) rfl
  | unregistered hkeep =>
    refine hb.modifyChannel ?_ ?_
    · intro c hc
      have hmem := List.mem_of_getElem? hc
      exact ⟨(hb.apart c hmem).filter _, hb.emptied c hmem⟩
    · intro c hc q hq s hs hch _ _ _
      obtain ⟨r, hr, hstands, hkept⟩ := hkeep c hc q hq s hs hch
      exact ⟨rfl, r, List.mem_filter.mpr ⟨hr, hkept⟩, hstands⟩
  | @started _ ch number tag name mode q c hq hc hopen hnew =>
    have hmem : ⟨tag, name, number⟩ ∈ Broker.register ⟨tag, name, number⟩ c.consumers := by
      rw [register_of_new fun r hr => (hnew r hr).1]
      exact List.mem_append_right _ (List.mem_singleton_self _)
    refine (hb.register hc hnew name).addConsumer
      ⟨{ c with consumers := Broker.register ⟨tag, name, number⟩ c.consumers }, ?_, hopen,
        ⟨tag, name, number⟩, hmem, rfl, rfl, ?_⟩
    · simp [Broker.modifyChannel, hc]
    · exact congrArg (Option.map (·.id)) hq
  | taken hc hrest _ =>
    refine hb.modifyUnacked (fun _ => ⟨rfl, rfl⟩) ?_
    intro c' hc' _ hempty
    obtain rfl := Option.some.inj (hc'.symm.trans hc)
    rw [hempty] at hrest
    exact List.sublist_nil.mp hrest
  | ended hc hnone =>
    refine hb.modifyChannel (fun _ _ => ⟨List.Pairwise.nil, fun _ => rfl⟩) ?_
    exact fun _ _ q hq s hs hch => absurd hch (hnone q hq s hs)
  | retired _ => exact hb
  | @returned _ u =>
    rcases giveBack_cases b u with ⟨hsame, _⟩ | ⟨q, _, _, hback⟩
    · rwa [hsame]
    · rw [hback]
      exact (hb.modifyMessages q.id (u.copy.marked :: ·)).of_same rfl rfl
  | @handed _ q copy _ s c hq _ hs _ =>
    have hturned : Attended { b with turns := b.turns + 1 } := hb.of_same rfl rfl
    refine (hturned.modifyMessages q.id (·.tail)).modifyUnacked (fun _ => ⟨rfl, rfl⟩) ?_
    -- the channel is open, for a queue has a consumer of it
    intro c' hc' hclosed _
    obtain ⟨c'', hc'', hopen, _⟩ := hb.registered q hq s hs
    obtain rfl := Option.some.inj (hc'.symm.trans hc'')
    cases hclosed.symm.trans hopen

/-- A chain of moves keeps consumers attended. -/
theorem moves (hb : b.Attended) (h : Moves b hand b' hand' s) : b'.Attended := by
  induction h with
  | refl => exact hb
  | next _ hmove ih => exact ih.move hmove

end Attended

end Broker

end Amqp
