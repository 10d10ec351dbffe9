import Amqp.Proofs.Channel.Account
import Mathlib.Data.List.Induction

/-!
# Sound channels

What ties the ledger, the deliveries and the settlements in flight together, in every state that a
run reaches.
-/

namespace Amqp.Channel

/-- A message that has to be settled comes under an assigned tag that no delivery has. -/
def Event.FreshFor (e : Event) (m : Machine) : Prop :=
  ∀ message, e.label? = some (message, .manual) →
    ∃ n, message.tag = .assigned n ∧ ∀ d, ¬m.channel.Manual d n

/-- What ties the accounts of a channel together. -/
structure Machine.Sound (m : Machine) : Prop where
  /-- Calls in flight go under numbers of their own. -/
  unique : m.UniqueIds
  /-- Deliveries that have to be settled come under tags of their own. -/
  distinct : ∀ d d' n, m.channel.Manual d n → m.channel.Manual d' n → d = d'
  /-- Who is on the ledger has to be settled, under its own tag. -/
  ledger : ∀ t d, (t, d) ∈ m.channel.pending → ∃ n, t = .assigned n ∧ m.channel.Manual d n
  /-- Nobody is on the ledger twice. -/
  once : (m.channel.pending.map (·.2)).Nodup
  /-- A settlement in flight has claimed its delivery. -/
  claimed : ∀ c ∈ m.calls, ∀ d s multiple requeue, c.request = .settle d s multiple requeue →
    m.channel.Manual d c.tag ∧ m.channel.state? d = some s.state
  /-- No two settlements in flight are about one delivery. -/
  single : ∀ c ∈ m.calls, ∀ c' ∈ m.calls, ∀ d, c.request.delivery? = some d →
    c'.request.delivery? = some d → c = c'

variable {id : String} {events : List Event} {m : Machine} {e : Event} {d n : Nat}

/-- The tag of a message that has to be settled is one that no delivery has. -/
theorem Event.FreshFor.not_manual (h : e.FreshFor m) {message : Message}
    (hl : e.label? = some (message, .manual)) (htag : message.tag = .assigned n) (d : Nat) :
    ¬m.channel.Manual d n := by
  obtain ⟨k, hk, hnew⟩ := h message hl
  obtain rfl := Tag.assigned.inj (hk.symm.trans htag)
  exact hnew d

/-- A delivery that has to be settled after a message came under a fresh tag is that of the message,
or it has another tag. -/
theorem Event.FreshFor.manual_arrived {consumer : Nat} {message : Message}
    (h : (Event.arrived consumer .manual message).FreshFor m)
    (htag : message.tag = .assigned n) {k : Nat}
    (hd : (m.step (.arrived consumer .manual message)).1.channel.Manual d k) :
    (m.channel.Manual d k ∧ k ≠ n) ∨ (d = m.channel.deliveries.length ∧ k = n) := by
  rcases hd.of_step with hd | ⟨hlast, message', hl, htag'⟩
  · refine .inl ⟨hd, ?_⟩
    rintro rfl
    exact h.not_manual rfl htag d hd
  · cases hl
    exact .inr ⟨hlast, Tag.assigned.inj (htag'.symm.trans htag)⟩

/-- A channel that has just been opened is sound. -/
theorem sound_opened (id : String) : (opened id).Sound where
  unique := List.nodup_nil
  distinct := by
    rintro d d' n ⟨message, hd, _⟩
    exact nomatch hd
  ledger t d h := nomatch h
  once := List.nodup_nil
  claimed c hc := nomatch hc
  single c hc := nomatch hc

namespace Machine.Sound

/-- All tags on the ledger of a sound channel are assigned. -/
theorem assigned (h : m.Sound) : m.channel.pending.Assigned := by
  intro entry hentry
  obtain ⟨n, ht, _⟩ := h.ledger entry.1 entry.2 hentry
  exact ⟨n, ht⟩

/-- A manual delivery waits exactly if the ledger has it under its tag. -/
theorem tracks_iff (h : m.Sound) (hd : m.channel.Manual d n) :
    m.channel.Tracks d ↔ (.assigned n, d) ∈ m.channel.pending := by
  constructor
  · rintro ⟨t, ht⟩
    obtain ⟨k, rfl, hk⟩ := h.ledger t d ht
    rwa [hd.tag_eq hk]
  · exact fun ht => ⟨_, ht⟩

/-- A delivery that waits has to be settled. -/
theorem manual_of_tracks (h : m.Sound) (hd : m.channel.Tracks d) : ∃ n, m.channel.Manual d n := by
  obtain ⟨t, ht⟩ := hd
  obtain ⟨n, _, hn⟩ := h.ledger t d ht
  exact ⟨n, hn⟩

/-- The ledger counts the deliveries that are on it. -/
theorem unsettledCount_eq (h : m.Sound) {p : Delivery → Bool}
    (hp : ∀ d, m.channel.Tracks d ↔ ∃ x, m.channel.deliveries[d]? = some x ∧ p x = true) :
    m.channel.unsettledCount = m.channel.deliveries.countP p := by
  have hperm : (m.channel.pending.map (·.2)).Perm (m.channel.deliveries.findIdxs p) := by
    refine (List.perm_ext_iff_of_nodup h.once List.nodup_findIdxs).mpr fun d => ?_
    have hmem : d ∈ m.channel.pending.map (·.2) ↔ m.channel.Tracks d := by
      simp [Tracks]
    rw [hmem, hp, List.mem_findIdxs_iff_exists_getElem_pos]
    constructor
    · rintro ⟨x, hx, hpx⟩
      obtain ⟨hd, rfl⟩ := List.getElem?_eq_some_iff.mp hx
      exact ⟨hd, hpx⟩
    · rintro ⟨hd, hpx⟩
      exact ⟨_, List.getElem?_eq_getElem hd, hpx⟩
  have hlength := hperm.length_eq
  rwa [List.length_map, List.length_findIdxs] at hlength

/-- A delivery whose settlement is in flight is not there to be asked for. -/
theorem not_awaits (h : m.Sound) {c : Call} (hc : c ∈ m.calls) (hd : c.request.delivery? = some d)
    {delivery : Delivery} (hdelivery : m.channel.deliveries[d]? = some delivery) :
    ¬delivery.Awaits n := by
  obtain ⟨s, multiple, requeue, hrequest⟩ := Request.delivery?_eq_some_iff.mp hd
  have hstate := (h.claimed c hc d s multiple requeue hrequest).2
  rw [state?, hdelivery, Option.map_some] at hstate
  intro hawaits
  exact s.state_ne ((Option.some.inj hstate).symm.trans hawaits.2.2)

/-- A message under a fresh tag is put at the end of the ledger. -/
theorem pending_receive (h : m.Sound) {message : Message} (htag : message.tag = .assigned n)
    (hfresh : ∀ d, ¬m.channel.Manual d n) :
    (m.channel.receive message .manual).pending =
      m.channel.pending ++ [(.assigned n, m.channel.deliveries.length)] := by
  rw [receive, htag]
  apply TagMap.track_of_fresh
  intro entry hentry
  obtain ⟨k, ht, hk⟩ := h.ledger entry.1 entry.2 hentry
  have hne : k ≠ n := by
    rintro rfl
    exact hfresh _ hk
  simpa [ht] using hne

/-- Who is on the ledger after a step has been there before, or has just arrived. -/
theorem mem_pending_step (h : m.Sound) (hfresh : e.FreshFor m) {t : Tag}
    (ht : (t, d) ∈ (m.step e).1.channel.pending) :
    (t, d) ∈ m.channel.pending ∨ d = m.channel.deliveries.length ∧
      ∃ n, t = .assigned n ∧ (m.step e).1.channel.Manual d n := by
  cases ledgerChange_step m e with
  | same hsame => exact .inl (hsame ▸ ht)
  | ended _ hended =>
    rw [hended] at ht
    exact nomatch ht
  | settled _ _ _ _ hchannel =>
    rw [hchannel, pending_release] at ht
    exact .inl (TagMap.mem_of_mem_kept ht)
  | tracked hl hchannel =>
    obtain ⟨n, htag, hnew⟩ := hfresh _ hl
    rw [hchannel, h.pending_receive htag hnew, List.mem_append, List.mem_singleton] at ht
    rcases ht with ht | ht
    · exact .inl ht
    · cases ht
      rw [hchannel]
      exact .inr ⟨rfl, n, rfl, manual_receive htag⟩

/-- Who has arrived and is not on the ledger does not come on it again. -/
theorem not_tracks_step (h : m.Sound) (hfresh : e.FreshFor m) (hd : m.channel.Manual d n)
    (hoff : ¬m.channel.Tracks d) : ¬(m.step e).1.channel.Tracks d := by
  rintro ⟨t, ht⟩
  rcases h.mem_pending_step hfresh ht with ht | ⟨hlast, _⟩
  · exact hoff ⟨t, ht⟩
  · exact absurd hd.lt (by omega)

/-- A step under a fresh tag puts nobody on the ledger twice. -/
theorem once_step (h : m.Sound) (hfresh : e.FreshFor m) :
    ((m.step e).1.channel.pending.map (·.2)).Nodup := by
  cases ledgerChange_step m e with
  | same hsame => exact hsame ▸ h.once
  | ended _ hended =>
    rw [hended]
    exact List.nodup_nil
  | settled _ _ _ _ hchannel =>
    rw [hchannel, pending_release, TagMap.kept_settle h.assigned]
    exact (List.filter_sublist.map _).nodup h.once
  | tracked hl hchannel =>
    obtain ⟨n, htag, hnew⟩ := hfresh _ hl
    rw [hchannel, h.pending_receive htag hnew, List.map_append, List.nodup_append]
    refine ⟨h.once, List.nodup_singleton _, ?_⟩
    intro d hd d' hd'
    obtain ⟨⟨t, d⟩, hmem, rfl⟩ := List.mem_map.mp hd
    obtain ⟨k, _, hk⟩ := h.ledger t d hmem
    rw [List.map_singleton, List.mem_singleton] at hd'
    have hlt := hk.lt
    omega

/-- A settlement in flight after a step has claimed its delivery. -/
theorem claimed_step (h : m.Sound) {c : Call} {s : Settlement} {multiple requeue : Value}
    (hc : c ∈ (m.step e).1.calls) (hrequest : c.request = .settle d s multiple requeue) :
    (m.step e).1.channel.Manual d c.tag ∧ (m.step e).1.channel.state? d = some s.state := by
  rcases origin_step hc with ⟨c₀, hc₀, hid, hrequest₀, htag₀⟩ | ⟨_, hnone⟩ |
    ⟨d', s', multiple', requeue', delivery, n, rfl, hd, hawaits, hc', hchannel⟩
  · obtain ⟨hmanual, hstate⟩ := h.claimed c₀ hc₀ d s multiple requeue (hrequest₀.trans hrequest)
    refine ⟨htag₀ ▸ hmanual.step e, ?_⟩
    rcases state?_step_of_ne hstate s.state_ne e with hstate | ⟨c', s', multiple', requeue', error,
      rfl, hcall, hrequest', hphase⟩
    · exact hstate
    · -- A settlement that gives its delivery back is over, so it is not this one.
      have hsame : c₀ = c' := by
        refine h.single c₀ hc₀ c' (mem_of_call? hcall).1 d ?_ ?_
        · exact Request.delivery?_of_settle (hrequest₀.trans hrequest)
        · exact Request.delivery?_of_settle hrequest'
      rw [step_heard_of_refused hcall hrequest' hphase] at hc
      exact absurd (hid.symm.trans (congrArg Call.id hsame)) (mem_calls_drop.mp hc).2
  · exact nomatch (Request.delivery?_of_settle hrequest).symm.trans hnone
  · rw [hc'] at hrequest
    cases hrequest
    refine ⟨?_, by rw [hchannel, state?_claimed hd]⟩
    rw [hc']
    exact (Manual.of_awaits hd hawaits).step _

/-- Every step under a fresh number, with a fresh tag, keeps a channel sound. -/
theorem step (h : m.Sound) (hnew : e.NewFor m) (hfresh : e.FreshFor m) : (m.step e).1.Sound where
  unique := h.unique.step hnew
  distinct := by
    intro d d' n hd hd'
    rcases hd.of_step with hd | ⟨hd, message, hl, htag⟩
    · rcases hd'.of_step with hd' | ⟨hd', message, hl, htag⟩
      · exact h.distinct d d' n hd hd'
      · exact absurd hd (hfresh.not_manual hl htag d)
    · rcases hd'.of_step with hd' | ⟨hd', _⟩
      · exact absurd hd' (hfresh.not_manual hl htag d')
      · rw [hd, hd']
  ledger := by
    intro t d ht
    rcases h.mem_pending_step hfresh ht with ht | ⟨_, hnew⟩
    · obtain ⟨n, htag, hn⟩ := h.ledger t d ht
      exact ⟨n, htag, hn.step e⟩
    · exact hnew
  once := h.once_step hfresh
  claimed := fun c hc d s multiple requeue hrequest => h.claimed_step hc hrequest
  single := by
    intro c hc c' hc' d hd hd'
    refine eq_of_mem_calls_step (P := fun r => r.delivery? = some d) ?_ (h.unique.step hnew)
      (fun c hc c' hc' => h.single c hc c' hc' d) ?_ hc hc' hd hd'
    · intro r hr
      rw [hr]
      exact nofun
    · intro call d' s multiple requeue delivery n _ hdelivery hawaits hrequest c₀ hc₀ hd₀
      cases hrequest
      exact h.not_awaits hc₀ hd₀ hdelivery hawaits

end Machine.Sound

/-- The labels of a channel are those of messages that arrived. -/
theorem labels_reached_sublist (id : String) (events : List Event) :
    (reached id events).channel.labels.Sublist (events.filterMap Event.label?) := by
  induction events using List.reverseRecOn with
  | nil => exact List.Sublist.slnil
  | append_singleton u e ih =>
    rw [reached_concat, List.filterMap_append]
    rcases labels_step (reached id u) e with heq | ⟨l, hl, heq⟩
    · rw [heq]
      exact ih.trans (List.sublist_append_left ..)
    · have hone : [e].filterMap Event.label? = [l] := by simp [hl]
      rw [heq, hone]
      exact ih.append (List.Sublist.refl _)

/-- A part of a tagged run is one too. -/
theorem Tagged.of_append_left {xs ys : List Event} (h : Tagged (xs ++ ys)) : Tagged xs := by
  simp only [Tagged, manualTags, List.filterMap_append, List.filter_append, List.map_append,
    List.mem_append, not_or] at h
  exact ⟨h.1.1, h.2.of_append_left⟩

/-- In a tagged run, each message that has to be settled comes under a fresh tag. -/
theorem Tagged.freshFor {u v : List Event} (h : Tagged (u ++ e :: v)) :
    e.FreshFor (reached id u) := by
  intro message hl
  obtain ⟨hassigned, hnodup⟩ := h
  have htags : manualTags ((u ++ e :: v).filterMap Event.label?) =
      manualTags (u.filterMap Event.label?) ++
        message.tag.number? :: manualTags (v.filterMap Event.label?) := by
    simp [manualTags, List.filterMap_append, hl]
  rw [htags] at hassigned hnodup
  cases htag : message.tag with
  | irregular v => simp [htag, Tag.number?] at hassigned
  | assigned n =>
    refine ⟨n, rfl, ?_⟩
    intro d hd
    have hmem : some n ∈ manualTags (u.filterMap Event.label?) :=
      (((labels_reached_sublist id u).filter _).map _).subset hd.mem_manualTags
    refine List.disjoint_of_nodup_append hnodup hmem ?_
    simp [htag, Tag.number?]

/-- In a tagged run, each manual delivery has an assigned tag. -/
theorem Tagged.exists_manual (h : Tagged events) {x : Delivery}
    (hx : (reached id events).channel.deliveries[d]? = some x) (hmode : x.mode = .manual) :
    ∃ n, (reached id events).channel.Manual d n := by
  cases htag : x.message.tag with
  | assigned n => exact ⟨n, manual_iff.mpr ⟨x, hx, hmode, htag⟩⟩
  | irregular v =>
    have hlabel : (x.message, .manual) ∈ (reached id events).channel.labels :=
      hmode ▸ List.mem_map_of_mem (List.mem_of_getElem? hx)
    refine absurd ?_ h.1
    rw [manualTags, List.mem_map]
    exact ⟨_, List.mem_filter.mpr ⟨(labels_reached_sublist id events).subset hlabel, rfl⟩,
      by simp [htag, Tag.number?]⟩

/-- Every state that a numbered and tagged run reaches is sound. -/
theorem Numbered.sound (hnumbered : Numbered events) (htagged : Tagged events) :
    (reached id events).Sound := by
  refine reached_invariant (sound_opened id) events ?_
  rintro u e v rfl hu
  exact hu.step hnumbered.newFor htagged.freshFor

end Amqp.Channel
