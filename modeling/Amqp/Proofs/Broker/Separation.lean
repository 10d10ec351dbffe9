import Amqp.Proofs.Broker.Registries

/-!
# Consumers of different channels

Every consumer is kept twice: on its queue, and in the registry of its channel. Ending a consumer
takes it off its queue by its tag, and a tag is one of its channel only: where another channel has
a consumer of the same tag on the queue, that one goes too, and its channel keeps an entry for it.
Until that happens the two lists agree and channels do not interfere.
-/

namespace Amqp.Broker

variable {b : Broker} {e : Event} {ch : Nat} {r : Registered} {q : Queue} {known : List Nat}

/-! ## Both lists -/

/-- A consumer as a queue lists it, or as a channel has it in its registry. -/
structure Attachment where
  channel : Nat
  number : Nat
  tag : Value
  /-- The number of the queue, if there is one. -/
  queue : Option Nat
  deriving Repr

/-- The consumers that queues list. -/
def listed (b : Broker) : List Attachment :=
  b.queues.flatMap fun q => q.consumers.map fun s => ⟨s.channel, s.number, s.tag, some q.id⟩

/-- The consumers that open channels have in their registries. -/
def entered (b : Broker) : List Attachment :=
  b.registered.map fun x => ⟨x.1, x.2.number, x.2.tag, b.holder? x.2.queue⟩

/-- Queues list the consumers that open channels have in their registries, each once. -/
def Corresponds (b : Broker) : Prop := b.listed.Perm b.entered

/-- Every entry of a registry is that of a consumer of its queue. -/
def Served (b : Broker) : Prop :=
  ∀ ch, ∀ r ∈ b.registry ch, ∃ q ∈ b.queues, ∃ s ∈ q.consumers, s.channel = ch ∧ r.StandsFor b q s

/-- Different numbers, different entries. -/
theorem nodup_entered (h : b.Ordered known) : b.entered.Nodup := by
  have hnumbers : (b.registered.map fun x => x.2.number).Nodup := by
    rw [registered, List.map_flatMap, List.nodup_flatMap]
    constructor
    · intro ch _
      rw [entriesOf, List.map_map]
      refine List.pairwise_map.mpr ?_
      rw [registry]
      cases hopen : b.openChannel ch with
      | error f => exact List.Pairwise.nil
      | ok c =>
        have hmem := List.mem_of_getElem? (openChannel_eq_ok.mp hopen).1
        exact (h.attended.apart c hmem).imp fun hapart => hapart.2
    · refine List.nodup_range.imp fun {ch ch'} hne n hn hn' => ?_
      obtain ⟨⟨_, r⟩, hr, rfl⟩ := List.mem_map.mp hn
      obtain ⟨⟨_, r'⟩, hr', hnumber⟩ := List.mem_map.mp hn'
      obtain ⟨rfl, hmem⟩ := mem_entriesOf.mp hr
      obtain ⟨rfl, hmem'⟩ := mem_entriesOf.mp hr'
      exact hne (h.distinct.unique _ _ r r' hmem hmem' hnumber.symm).1
  refine List.Nodup.of_map (·.number) ?_
  rwa [entered, List.map_map]

/-- Different numbers, different consumers. -/
theorem nodup_listed (h : b.Ordered known) : b.listed.Nodup := by
  have hnumbers : (b.queues.flatMap fun q => q.consumers.map (·.number)).Nodup := by
    rw [List.nodup_flatMap]
    refine ⟨h.distinct.consumers, ?_⟩
    have hids := List.pairwise_map.mp h.named.distinct
    refine hids.imp_of_mem fun {q q'} hq hq' hne n hn hn' => ?_
    obtain ⟨s, hs, rfl⟩ := List.mem_map.mp hn
    obtain ⟨s', hs', hnumber⟩ := List.mem_map.mp hn'
    obtain ⟨rfl, _⟩ := h.distinct.eq_of_number h.attended h.named hq hs hq' hs' hnumber.symm
    exact hne rfl
  refine List.Nodup.of_map (·.number) ?_
  rw [listed, List.map_flatMap]
  simpa only [List.map_map, Function.comp_def] using hnumbers

/-- The two lists agree if every entry is that of a consumer: consumers always have entries. -/
theorem corresponds_iff_served (h : b.Ordered known) : b.Corresponds ↔ b.Served := by
  rw [Corresponds, List.perm_ext_iff_of_nodup (nodup_listed h) (nodup_entered h)]
  constructor
  · intro hsame ch r hr
    have hentered : ⟨ch, r.number, r.tag, b.holder? r.queue⟩ ∈ b.entered :=
      List.mem_map.mpr ⟨(ch, r), mem_registered.mpr hr, rfl⟩
    obtain ⟨q, hq, hmem⟩ := List.mem_flatMap.mp ((hsame _).mpr hentered)
    obtain ⟨s, hs, hattachment⟩ := List.mem_map.mp hmem
    obtain ⟨hch, hnumber, htag, hqueue⟩ := Attachment.mk.inj hattachment
    exact ⟨q, hq, s, hs, hch, htag.symm, hnumber.symm, hqueue.symm⟩
  · intro hserved a
    constructor
    · intro ha
      obtain ⟨q, hq, hmem⟩ := List.mem_flatMap.mp ha
      obtain ⟨s, hs, rfl⟩ := List.mem_map.mp hmem
      obtain ⟨r, hr, hstands⟩ := h.attended.exists_entry hq hs
      refine List.mem_map.mpr ⟨(s.channel, r), mem_registered.mpr hr, ?_⟩
      rw [hstands.number, hstands.tag, hstands.queue]
    · intro ha
      obtain ⟨⟨ch, r⟩, hr, rfl⟩ := List.mem_map.mp ha
      obtain ⟨q, hq, s, hs, rfl, hstands⟩ := hserved ch r (mem_registered.mp hr)
      refine List.mem_flatMap.mpr ⟨q, hq, List.mem_map.mpr ⟨s, hs, ?_⟩⟩
      rw [hstands.number, hstands.tag, hstands.queue]

/-! ## Steps -/

/-- A consumer of one channel that goes by the tag of another one's, or an entry that is left for a
consumer whose queue is deleted. -/
inductive Event.Strands (b : Broker) (e : Event) : Prop where
  /-- A channel ends a consumer, and another channel has one of the same tag on the queue. -/
  | crossing {ch : Nat} {r : Registered} {q : Queue} {s : Consumer}
      (hended : (ch, r) ∈ e.finished b) (hone : ∀ error, e ≠ .disconnect error)
      (hq : b.queue? r.queue = some q) (hs : s ∈ q.consumers) (hother : s.channel ≠ ch)
      (htag : s.tag.isEqual r.tag = true)
  /-- The deletion of a queue breaks off before the last consumer is forgotten. -/
  | brokenOff {q : Queue} (hdeletes : e.Deletes b q)
      (huntold : (told q.consumers).length + 1 < q.consumers.length)

/-- The event ends the consumer: its channel gives up the entry for it. -/
def Event.Ends (b : Broker) (e : Event) (s : Consumer) : Prop :=
  ∃ r, (s.channel, r) ∈ e.finished b ∧ r.tag = s.tag ∧ r.number = s.number

/-- An entry that ends with the event takes the consumer off the queue. -/
def Event.Takes (b : Broker) (e : Event) (q : Queue) (s : Consumer) : Prop :=
  ∃ x ∈ e.finished b, q.name.sameKey x.2.queue = true ∧ x.2.takes s = true

/-- The consumer is no more on the queue after the event. -/
def Event.Detaches (b : Broker) (e : Event) (q : Queue) (s : Consumer) : Prop :=
  ∀ q' ∈ (b.step e).broker.queues, q'.id = q.id → s ∉ q'.consumers

/-- A consumer is left with its queue unless the queue is deleted or the consumer is taken. -/
theorem remains_with_iff (hnamed : b.Named) (hq : q ∈ b.queues) {s : Consumer}
    (hs : s ∈ q.consumers) :
    (∃ x, (e.change b).remains q.shell = some x ∧ s ∈ x.consumers) ↔
      ¬e.Deletes b q ∧ ¬e.Takes b q s := by
  have hdeletes := change_eq_delete_iff (b := b) (e := e) (q := q)
  rw [← hdeletes, Event.Takes, Event.finished]
  cases hk : e.change b with
  | declare q₀ => simp [Change.remains, hs]
  | delete q₀ =>
    obtain ⟨_, _, _, _, _, hq₀⟩ := change_eq_delete_iff.mp hk
    have hsame : q.id = q₀.id ↔ q₀ = q :=
      ⟨fun hid => (hnamed.eq_of_id hq (mem_of_queue? hq₀) hid).symm, fun h => by rw [h]⟩
    by_cases hid : q.id = q₀.id
    · simp [Change.remains, hid, hsame.mp hid]
    · simp [Change.remains, hid, hs, mt hsame.mpr hid]
  | start id s' name =>
    have hmem : s ∈ (if q.id = id then { q.shell with consumers := q.consumers ++ [s'] }
        else q.shell).consumers := by
      split
      · exact List.mem_append_left _ hs
      · exact hs
    simp only [Change.remains, reduceCtorEq, not_false_eq_true, List.not_mem_nil, false_and,
      exists_false, and_self, iff_true]
    exact ⟨_, rfl, hmem⟩
  | finish gone =>
    have htaken : (∃ r ∈ gone.map (·.2), q.name.sameKey r.queue = true ∧ r.takes s = true) ↔
        ∃ x ∈ gone, q.name.sameKey x.2.queue = true ∧ x.2.takes s = true := by
      simp only [List.mem_map, exists_exists_and_eq_and]
    simp only [Change.remains, reduceCtorEq, not_false_eq_true, true_and, ← htaken]
    constructor
    · rintro ⟨x, hx, hmem⟩
      exact ((Queue.mem_consumers_of_without? hx).mp hmem).2
    · intro hnot
      cases hx : q.shell.without? (gone.map (·.2)) with
      | none => exact absurd ((Queue.without?_eq_none_iff.mp hx).2.2 s hs) hnot
      | some x => exact ⟨x, rfl, (Queue.mem_consumers_of_without? hx).mpr ⟨hs, hnot⟩⟩

/-- A consumer leaves its queue if the queue is deleted or the consumer is taken. -/
theorem detaches_iff (hnamed : b.Named) (hq : q ∈ b.queues) {s : Consumer} (hs : s ∈ q.consumers) :
    e.Detaches b q s ↔ e.Deletes b q ∨ e.Takes b q s := by
  have hstays := remains_with_iff hnamed hq hs (e := e)
  constructor
  · intro hdetaches
    by_contra hneither
    obtain ⟨x, hx, hmem⟩ := hstays.mpr (not_or.mp hneither)
    obtain ⟨q', hq', rfl⟩ := mem_step_of_remains hnamed hq hx
    exact hdetaches q' hq' (Change.of_remains hx).1 hmem
  · intro hgone q' hq' hid hmem
    rcases exists_of_mem_step hnamed hq' with ⟨q₁, hq₁, hremains⟩ | hadded
    · have hsame : q₁.id = q.id := (Change.of_remains hremains).1.symm.trans hid
      obtain rfl := hnamed.eq_of_id hq₁ hq hsame
      exact not_or.mpr (hstays.mp ⟨q'.shell, hremains, hmem⟩) hgone
    · have hnone : q'.consumers = [] := ((turn_step b e).of_added hadded).2.2.1
      rw [hnone] at hmem
      cases hmem

/-- A name still means its queue after a step that leaves something of it. -/
theorem exists_queue_step (hnamed : b.Named) {name : Value} (hq : b.queue? name = some q)
    {x : Queue} (hx : (e.change b).remains q.shell = some x) :
    ∃ q' ∈ (b.step e).broker.queues, q'.consumers = x.consumers ∧
      (b.step e).broker.holder? name = some q'.id := by
  obtain ⟨hmem, hname⟩ := hnamed.queue?_eq_some_iff.mp hq
  obtain ⟨q', hq', rfl⟩ := mem_step_of_remains hnamed hmem hx
  have hsame : q'.name = q.name := (Change.of_remains hx).2.1
  have hnamed' : (b.step e).broker.Named := (turn_step b e).named hnamed
  have hfound : (b.step e).broker.queue? name = some q' :=
    hnamed'.queue?_eq_some_iff.mpr ⟨hq', hsame ▸ hname⟩
  exact ⟨q', hq', rfl, by rw [holder?, hfound, Option.map_some]⟩

/-- The name of an entry means the queue of its consumer. -/
theorem Registered.StandsFor.queue? (hnamed : b.Named) (hq : q ∈ b.queues) {s : Consumer}
    (hstands : r.StandsFor b q s) : b.queue? r.queue = some q := by
  obtain ⟨q₀, hq₀, hid⟩ := Option.map_eq_some_iff.mp hstands.queue
  rw [hq₀, hnamed.eq_of_id (mem_of_queue? hq₀) hq hid]

/-- An entry still stands for a consumer that stays. -/
theorem standsFor_step (hnamed : b.Named) (hq : q ∈ b.queues) {s : Consumer}
    (hs : s ∈ q.consumers) (hstands : r.StandsFor b q s) (hstays : ¬e.Detaches b q s) :
    ∃ q' ∈ (b.step e).broker.queues, s ∈ q'.consumers ∧ r.StandsFor (b.step e).broker q' s := by
  rw [detaches_iff hnamed hq hs, not_or] at hstays
  obtain ⟨x, hx, hmem⟩ := (remains_with_iff hnamed hq hs).mpr hstays
  obtain ⟨q', hq', hsame, hholder⟩ := exists_queue_step hnamed (hstands.queue? hnamed hq) hx
  exact ⟨q', hq', hsame ▸ hmem, hstands.tag, hstands.number, hholder⟩

/-- A consumer that is started is on its queue. -/
theorem standsFor_step_of_enters (hnamed : b.Named) (henters : (e.change b).Enters ch r) :
    ∃ q' ∈ (b.step e).broker.queues, ∃ s ∈ q'.consumers, s.channel = ch ∧
      r.StandsFor (b.step e).broker q' s := by
  cases hk : e.change b with
  | start id s name =>
    rw [hk] at henters
    obtain ⟨hch, rfl⟩ := henters
    obtain ⟨_, _, _, q, hq, hid⟩ := change_eq_start hk
    have hx : (e.change b).remains q.shell =
        some { q.shell with consumers := q.shell.consumers ++ [s] } := by
      rw [hk, Change.remains, if_pos (by exact hid)]
    obtain ⟨q', hq', hsame, hholder⟩ := exists_queue_step hnamed hq hx
    have hmem : s ∈ q'.consumers := by
      rw [hsame]
      exact List.mem_append_right _ (List.mem_singleton_self s)
    exact ⟨q', hq', s, hmem, hch, rfl, rfl, hholder⟩
  | _ => rw [hk] at henters; cases henters

/-- A consumer that is started takes none away. -/
theorem not_detaches_of_start (hnamed : b.Named) {id : Nat} {s₀ : Consumer} {name : Value}
    (hk : e.change b = .start id s₀ name) (hq : q ∈ b.queues) {s : Consumer}
    (hs : s ∈ q.consumers) : ¬e.Detaches b q s := by
  rw [detaches_iff hnamed hq hs, ← change_eq_delete_iff, Event.Takes, Event.finished, hk]
  simp only [reduceCtorEq, List.not_mem_nil, false_and, exists_false, or_self, not_false_eq_true]

/-- An entry for a consumer that leaves is left for none. -/
theorem not_served_of_detaches (h : b.Ordered known) (hq : q ∈ b.queues) {s : Consumer}
    (hs : s ∈ q.consumers) (hdetaches : e.Detaches b q s)
    (hr : r ∈ (b.step e).broker.registry s.channel) (hnumber : r.number = s.number) :
    ¬(b.step e).broker.Served := by
  intro hserved
  obtain ⟨q', hq', s', hs', _, hstands⟩ := hserved _ r hr
  have hsame : s'.number = s.number := hstands.number.symm.trans hnumber
  rcases exists_of_mem_step h.named hq' with ⟨q₁, hq₁, hremains⟩ | hadded
  · have hold : s' ∈ q₁.consumers := by
      rcases Change.consumers_of_remains hremains with hsub | ⟨s₀, name, hk, _⟩
      · exact hsub.subset hs'
      · exact absurd hdetaches (not_detaches_of_start h.named hk hq hs)
    obtain ⟨rfl, rfl⟩ := h.distinct.eq_of_number h.attended h.named hq₁ hold hq hs hsame
    exact hdetaches q' hq' (Change.of_remains hremains).1 hs'
  · have hnone : q'.consumers = [] := ((turn_step b e).of_added hadded).2.2.1
    rw [hnone] at hs'
    cases hs'

/-- The entry for a consumer that ends with the event is the one that goes. -/
theorem Event.Ends.takes (h : b.Ordered known) (hq : q ∈ b.queues) {s : Consumer}
    (hs : s ∈ q.consumers) (hends : e.Ends b s) : e.Takes b q s := by
  obtain ⟨r, hr, _, hnumber⟩ := hends
  obtain ⟨r', hr', hstands⟩ := h.attended.exists_entry hq hs
  have hmem := (of_mem_finished hr).1
  obtain ⟨_, rfl⟩ := h.distinct.unique _ _ r r' hmem hr' (hnumber.trans hstands.number.symm)
  obtain ⟨_, hname⟩ := h.named.queue?_eq_some_iff.mp (hstands.queue? h.named hq)
  have hnumber : (s.number == r.number) = true := beq_iff_eq.mpr hstands.number.symm
  exact ⟨(s.channel, r), hr, hname, by rw [Registered.takes, hnumber, Bool.or_true]⟩

/-- Equal tags are one key. -/
theorem sameKey_of_isEqual {v w : Value} (h : v.isEqual w = true) : v.sameKey w = true := by
  unfold Value.isEqual at h
  split at h
  · cases h
  · exact h

/-- As long as nothing is stranded, consumers are taken by their own entries only. -/
theorem takes_iff_ends (h : b.Ordered known) (hstrands : ¬e.Strands b) (hq : q ∈ b.queues)
    {s : Consumer} (hs : s ∈ q.consumers) : e.Takes b q s ↔ e.Ends b s := by
  refine ⟨?_, fun hends => hends.takes h hq hs⟩
  rintro ⟨⟨ch, r⟩, hr, hname, htakes⟩
  obtain ⟨hmem, hevent⟩ := of_mem_finished hr
  obtain ⟨r', hr', hstands⟩ := h.attended.exists_entry hq hs
  by_cases hdisconnect : ∃ error, e = .disconnect error
  · obtain ⟨error, rfl⟩ := hdisconnect
    exact ⟨r', mem_registered.mpr hr', hstands.tag, hstands.number⟩
  · have hone (error : Value) : e ≠ .disconnect error := fun he => hdisconnect ⟨error, he⟩
    rcases Bool.or_eq_true_iff.mp htakes with htag | hnumber
    · have hch : s.channel = ch := by
        by_contra hother
        have hqueue := h.named.queue?_eq_some_iff.mpr ⟨hq, hname⟩
        exact hstrands (.crossing hr hone hqueue hs hother htag)
      subst hch
      have hsame : r' = r := by
        by_contra hne
        have hapart : r'.tag.sameKey r.tag = false := (h.attended.apart_of_mem hr' hmem hne).1
        rw [hstands.tag] at hapart
        exact Bool.false_ne_true (hapart.symm.trans (sameKey_of_isEqual htag))
      exact ⟨r, hr, hsame ▸ hstands.tag, hsame ▸ hstands.number⟩
    · have hsame : r'.number = r.number := hstands.number.trans (beq_iff_eq.mp hnumber)
      obtain ⟨rfl, rfl⟩ := h.distinct.unique _ _ r' r hr' hmem hsame
      exact ⟨r', hr, hstands.tag, hstands.number⟩

/-- What a change keeps does not end. -/
theorem not_mem_finished_of_keeps (h : (e.change b).Keeps ch r) : (ch, r) ∉ e.finished b := by
  rw [Event.finished]
  cases hk : e.change b with
  | finish gone =>
    rw [hk] at h
    exact h
  | _ => exact List.not_mem_nil

/-- What does not end is kept, unless it is forgotten with its queue. -/
theorem keeps_of_not_mem_finished (h : (ch, r) ∉ e.finished b) (hone : ∀ q, ¬e.Deletes b q) :
    (e.change b).Keeps ch r := by
  rw [Event.finished] at h
  cases hk : e.change b with
  | finish gone =>
    rw [hk] at h
    exact h
  | delete q => exact absurd (change_eq_delete_iff.mp hk) (hone q)
  | _ => trivial

/-- A consumer that comes after the ones that are forgotten keeps its entry. -/
theorem keeps_of_brokenOff (h : b.Ordered known) (hq : q ∈ b.queues) {s : Consumer}
    (hs : s ∈ q.consumers.drop ((told q.consumers).length + 1)) (hr : r ∈ b.registry s.channel)
    (hstands : r.StandsFor b q s) : (Change.delete q).Keeps s.channel r := by
  intro s₀ hs₀ hch
  have hnumber : s₀.number ≠ s.number := by
    have hnodup := h.distinct.consumers q hq
    rw [← List.take_append_drop ((told q.consumers).length + 1) q.consumers, List.map_append,
      List.nodup_append] at hnodup
    exact hnodup.2.2 _ (List.mem_map_of_mem hs₀) _ (List.mem_map_of_mem hs)
  obtain ⟨r₀, hr₀, hstands₀⟩ := h.attended.exists_entry hq (List.mem_of_mem_take hs₀)
  rw [hch] at hr₀
  have hne : r ≠ r₀ := by
    rintro rfl
    exact hnumber (hstands₀.number.symm.trans hstands.number)
  have hapart := h.attended.apart_of_mem hr hr₀ hne
  rw [← hstands₀.tag, ← hstands₀.number]
  exact hapart

/-- What is stranded leaves an entry of no consumer. -/
theorem Event.Strands.not_served (h : b.Ordered known) (hnew : e.IsNew b) (hstrands : e.Strands b) :
    ¬(b.step e).broker.Served := by
  cases hstrands with
  | @crossing ch r q s hended hone hq hs hother htag =>
    obtain ⟨hmem, hname⟩ := h.named.queue?_eq_some_iff.mp hq
    obtain ⟨r', hr', hstands⟩ := h.attended.exists_entry hmem hs
    have htakes : e.Takes b q s :=
      ⟨(ch, r), hended, hname, by rw [Registered.takes, htag, Bool.true_or]⟩
    have hdetaches : e.Detaches b q s := (detaches_iff h.named hmem hs).mpr (.inr htakes)
    have hstays : (s.channel, r') ∉ e.finished b := by
      intro hmem'
      rcases (of_mem_finished hended).2 with ⟨error, he⟩ | ⟨_, _, he⟩
      · exact hone error he
      · rcases (of_mem_finished hmem').2 with ⟨error, he'⟩ | ⟨_, _, he'⟩
        · exact hone error he'
        · exact hother (Event.request.inj (he'.symm.trans he)).1
    have hkeeps : (e.change b).Keeps s.channel r' := by
      refine keeps_of_not_mem_finished hstays fun q₀ hdeletes => ?_
      rw [Event.finished, change_eq_delete_iff.mpr hdeletes] at hended
      cases hended
    have hr'' := (mem_registry_step h.attended hnew s.channel r').mpr (.inl ⟨hr', hkeeps⟩)
    exact not_served_of_detaches h hmem hs hdetaches hr'' hstands.number
  | @brokenOff q hdeletes huntold =>
    have hmem : q ∈ b.queues := by
      obtain ⟨_, _, _, _, _, hq⟩ := hdeletes
      exact mem_of_queue? hq
    obtain ⟨s, hs⟩ := List.exists_mem_of_ne_nil
      (q.consumers.drop ((told q.consumers).length + 1)) (by simpa using huntold)
    have hs' : s ∈ q.consumers := List.mem_of_mem_drop hs
    obtain ⟨r, hr, hstands⟩ := h.attended.exists_entry hmem hs'
    have hkeeps : (e.change b).Keeps s.channel r := by
      rw [change_eq_delete_iff.mpr hdeletes]
      exact keeps_of_brokenOff h hmem hs hr hstands
    have hr' := (mem_registry_step h.attended hnew s.channel r).mpr (.inl ⟨hr, hkeeps⟩)
    have hdetaches : e.Detaches b q s := (detaches_iff h.named hmem hs').mpr (.inl hdeletes)
    exact not_served_of_detaches h hmem hs' hdetaches hr' hstands.number

/-- A consumer whose entry is kept stays, as long as nothing is stranded. -/
theorem not_detaches_of_keeps (h : b.Ordered known) (hstrands : ¬e.Strands b) (hq : q ∈ b.queues)
    {s : Consumer} (hs : s ∈ q.consumers) (hr : r ∈ b.registry s.channel)
    (hstands : r.StandsFor b q s) (hkeeps : (e.change b).Keeps s.channel r) :
    ¬e.Detaches b q s := by
  rw [detaches_iff h.named hq hs, takes_iff_ends h hstrands hq hs]
  rintro (hdeletes | ⟨r₁, hr₁, _, hnumber⟩)
  · have hall : q.consumers.length ≤ (told q.consumers).length + 1 :=
      Nat.le_of_not_lt fun huntold => hstrands (.brokenOff hdeletes huntold)
    rw [change_eq_delete_iff.mpr hdeletes, Change.Keeps, List.take_of_length_le hall] at hkeeps
    exact (hkeeps s hs rfl).2 hstands.number
  · have hmem := (of_mem_finished hr₁).1
    obtain ⟨_, rfl⟩ := h.distinct.unique _ _ r₁ r hmem hr (hnumber.trans hstands.number.symm)
    exact not_mem_finished_of_keeps hkeeps hr₁

/-- The lists go on to agree with a step exactly if it strands nothing. -/
theorem served_step_iff (h : b.Ordered known) (hnew : e.IsNew b) (hserved : b.Served) :
    (b.step e).broker.Served ↔ ¬e.Strands b := by
  constructor
  · exact fun hafter hstrands => hstrands.not_served h hnew hafter
  · intro hstrands ch r hr
    rcases (mem_registry_step h.attended hnew ch r).mp hr with ⟨hr, hkeeps⟩ | henters
    · obtain ⟨q, hq, s, hs, rfl, hstands⟩ := hserved ch r hr
      have hstays := not_detaches_of_keeps h hstrands hq hs hr hstands hkeeps
      obtain ⟨q', hq', hs', hstands'⟩ := standsFor_step h.named hq hs hstands hstays
      exact ⟨q', hq', s, hs', rfl, hstands'⟩
    · exact standsFor_step_of_enters h.named henters

/-- As long as nothing is stranded, a queue that is to be deleted with its last consumer goes when
its consumers, of whatever channels, have all ended. -/
theorem removes_iff (h : b.Ordered known) (hserved : b.Served) (hstrands : ¬e.Strands b)
    (hq : q ∈ b.queues) (hauto : q.flags.autoDelete.isTruthy = true) :
    e.Removes b q ↔ e.Deletes b q ∨ (q.consumers ≠ [] ∧ ∀ s ∈ q.consumers, e.Ends b s) := by
  refine or_congr_right ⟨?_, ?_⟩
  · intro hempties
    constructor
    · obtain ⟨⟨ch, r⟩, hr, hname⟩ := hempties.named
      obtain ⟨q', hq', s, hs, _, hstands⟩ := hserved ch r (of_mem_finished hr).1
      have hfound := h.named.queue?_eq_some_iff.mpr ⟨hq, hname⟩
      obtain rfl := Option.some.inj (hfound.symm.trans (hstands.queue? h.named hq'))
      exact List.ne_nil_of_mem hs
    · exact fun s hs => (takes_iff_ends h hstrands hq hs).mp (hempties.taken s hs)
  · rintro ⟨hsome, hall⟩
    have htaken (s : Consumer) (hs : s ∈ q.consumers) : e.Takes b q s := (hall s hs).takes h hq hs
    obtain ⟨s, hs⟩ := List.exists_mem_of_ne_nil q.consumers hsome
    obtain ⟨x, hx, hname, _⟩ := htaken s hs
    exact ⟨hauto, ⟨x, hx, hname⟩, htaken⟩

/-! ## Runs -/

/-- Channels do not interfere in a run. -/
structure Separate (events : List Event) : Prop where
  /-- Queues list exactly the consumers that open channels have registered. -/
  corresponds : ∀ u v, events = u ++ v → (reached u).Corresponds
  /-- A consumer leaves its queue when its channel ends it or the queue is deleted. -/
  own : ∀ u e v, events = u ++ e :: v → ∀ q ∈ (reached u).queues, ∀ s ∈ q.consumers,
    (e.Detaches (reached u) q s ↔ e.Deletes (reached u) q ∨ e.Ends (reached u) s)
  /-- What one channel asks for takes no consumer of another one along. -/
  others : ∀ u e v, events = u ++ e :: v → ∀ ch number p, e = .request ch number p →
    ∀ q ∈ (reached u).queues, ¬e.Deletes (reached u) q → ∀ s ∈ q.consumers, s.channel ≠ ch →
      ¬e.Detaches (reached u) q s
  /-- No queue lists a consumer of a channel that has ended. -/
  live : ∀ u v, events = u ++ v → ∀ q ∈ (reached u).queues, ∀ s ∈ q.consumers,
    (reached u).IsOpen s.channel
  /-- A queue that is to be deleted with its last consumer goes when its consumers, of whatever
  channels, have all ended, or when it is deleted. -/
  last : ∀ u e v, events = u ++ e :: v → ∀ q ∈ (reached u).queues,
    q.flags.autoDelete.isTruthy = true →
      ((∀ q' ∈ ((reached u).step e).broker.queues, q'.id ≠ q.id) ↔
        e.Deletes (reached u) q ∨
          (q.consumers ≠ [] ∧ ∀ s ∈ q.consumers, e.Ends (reached u) s))

/-- The lists agree at every moment exactly if nothing is ever stranded. -/
theorem corresponds_iff_not_strands {events : List Event} (hfresh : IsFresh events)
    (hapart : StartsApart events) :
    (∀ u v, events = u ++ v → (reached u).Corresponds) ↔
      ∀ u e v, events = u ++ e :: v → ¬e.Strands (reached u) := by
  have hserved : (∀ u v, events = u ++ v → (reached u).Served) ↔
      ∀ u e v, events = u ++ e :: v → ¬e.Strands (reached u) := by
    refine forall_prefix_iff (fun _ _ hr => (by cases hr)) fun u e v hevents hserved => ?_
    obtain ⟨hordered, hnew, _⟩ := ordered_of_append hfresh hapart hevents
    rw [reached_concat]
    exact served_step_iff hordered hnew hserved
  rw [← hserved]
  refine forall_congr' fun u => forall_congr' fun v => imp_congr_right fun hevents => ?_
  exact corresponds_iff_served (ordered_of_append hfresh hapart hevents).1

/-- **Separation.** In a run whose consumers are new to their channels and asked for under numbers
of their own, channels do not interfere, exactly if no consumer is ended whose tag another channel's
consumer of the queue has, and no deletion of a queue breaks off before its consumers are
forgotten. -/
theorem separate_iff_not_strands {events : List Event} (hfresh : IsFresh events)
    (hapart : StartsApart events) :
    Separate events ↔ ∀ u e v, events = u ++ e :: v → ¬e.Strands (reached u) := by
  have hcorresponds := corresponds_iff_not_strands hfresh hapart
  refine ⟨fun h => hcorresponds.mp h.corresponds, fun hnever => ?_⟩
  have hown (u : List Event) (e : Event) (v : List Event) (hevents : events = u ++ e :: v)
      (q : Queue) (hq : q ∈ (reached u).queues) (s : Consumer) (hs : s ∈ q.consumers) :
      e.Detaches (reached u) q s ↔ e.Deletes (reached u) q ∨ e.Ends (reached u) s := by
    have hordered := (ordered_of_append hfresh hapart hevents).1
    rw [detaches_iff hordered.named hq hs, takes_iff_ends hordered (hnever u e v hevents) hq hs]
  refine ⟨hcorresponds.mpr hnever, hown, ?_, ?_, ?_⟩
  · intro u e v hevents ch number p he q hq hkept s hs hother hdetaches
    rcases (hown u e v hevents q hq s hs).mp hdetaches with hdeletes | ⟨r, hr, _⟩
    · exact hkept hdeletes
    · rcases (of_mem_finished hr).2 with ⟨error, hdisconnect⟩ | ⟨_, _, hrequest⟩
      · cases he.symm.trans hdisconnect
      · exact hother (Event.request.inj (hrequest.symm.trans he)).1
  · intro u v hevents q hq s hs
    have hordered := (ordered_of_append hfresh hapart hevents).1
    obtain ⟨r, hr, _⟩ := hordered.attended.exists_entry hq hs
    obtain ⟨c, hopen, _⟩ := mem_registry_iff.mp hr
    exact ⟨c, hopen⟩
  · intro u e v hevents q hq hauto
    have hordered := (ordered_of_append hfresh hapart hevents).1
    have hserved := (corresponds_iff_served hordered).mp (hcorresponds.mpr hnever u _ hevents)
    rw [gone_step_iff hordered.named hq]
    exact removes_iff hordered hserved (hnever u e v hevents) hq hauto

/-- Two channels consume from a queue under one tag, and one of them cancels its consumer. -/
def sharedTag : List Event :=
  [.openChannel, .openChannel,
    .request 0 1 (.queueDeclare (some
      (.table [("name", .text "jobs"), ("autoDelete", .bool false)]))),
    .request 0 2 (.basicConsume (.text "jobs") (.table [("consumerTag", .text "x")])),
    .request 1 3 (.basicConsume (.text "jobs") (.table [("consumerTag", .text "x")])),
    .request 0 4 (.basicCancel (.text "x"))]

/-- A consumer is new to a channel that has none. -/
theorem isNew_of_isEmpty (number : Nat) (name options : Value)
    (h : (b.channels[ch]?).all (·.consumers.isEmpty) = true) :
    (Event.request ch number (.basicConsume name options)).IsNew b := by
  intro _ c hc r hr
  rw [Option.mem_def.mp hc, Option.all_some, List.isEmpty_iff] at h
  rw [h] at hr
  cases hr

/-- The tags are new to their channels, and the numbers are apart. -/
theorem isFresh_sharedTag : IsFresh sharedTag ∧ StartsApart sharedTag := by
  have hnumbers : sharedTag.filterMap Event.startNumber? = [2, 3] := rfl
  have hapart : StartsApart sharedTag := by
    rw [StartsApart, hnumbers]
    decide
  exact ⟨⟨trivial, trivial, trivial, isNew_of_isEmpty 2 _ _ rfl, isNew_of_isEmpty 3 _ _ rfl,
    trivial, trivial⟩, hapart⟩

/-- In that run the channels interfere, for the other channel's consumer is stranded. -/
theorem separate_iff_not_strands_sharedTag :
    IsFresh sharedTag ∧ StartsApart sharedTag ∧ ¬Separate sharedTag := by
  obtain ⟨hfresh, hapart⟩ := isFresh_sharedTag
  refine ⟨hfresh, hapart, fun h => ?_⟩
  have hnever := (separate_iff_not_strands hfresh hapart).mp h
  have hstrands : (Event.request 0 4 (.basicCancel (.text "x"))).Strands
      (reached (sharedTag.take 5)) := by
    have hended : (0, ⟨.text "x", .text "jobs", 2⟩) ∈
        (Event.request 0 4 (.basicCancel (.text "x"))).finished (reached (sharedTag.take 5)) :=
      List.mem_singleton_self _
    have hs : (⟨3, .text "x", 1, .manual⟩ : Consumer) ∈
        [(⟨2, .text "x", 0, .manual⟩ : Consumer), ⟨3, .text "x", 1, .manual⟩] :=
      List.mem_cons_of_mem _ (List.mem_singleton_self _)
    exact .crossing hended (by rintro error ⟨⟩) rfl hs (by decide) rfl
  exact hnever (sharedTag.take 5) _ [] rfl hstrands

/-- The other channel's consumer is off the queue, and its channel still has it. -/
theorem exists_not_separate :
    ¬∀ events, IsFresh events → StartsApart events → Separate events := by
  intro h
  have hcorresponds := (h sharedTag isFresh_sharedTag.1 isFresh_sharedTag.2).corresponds
  have hlength := (hcorresponds sharedTag [] rfl).length_eq
  have hlisted : (reached sharedTag).listed.length = 0 := rfl
  have hentered : (reached sharedTag).entered.length = 1 := rfl
  omega

end Amqp.Broker
