import Amqp.Proofs.Broker.Changes
import Amqp.Proofs.Broker.Copies

/-!
# What a step does to registries

The entries of a channel's registry after a step are those that the change keeps, and the one of a
consumer that is started. In a run whose consumers are started under numbers of their own, a number
is that of one entry, and of one consumer of one queue.
-/

namespace Amqp.Broker

variable {b b' : Broker} {ch : Nat} {r : Registered} {q : Queue} {k : Change} {e : Event}

/-! ## Entries after a change -/

/-- The entry of a channel stays with the change. -/
def Change.Keeps (ch : Nat) (r : Registered) : Change → Prop
  | declare _ => True
  | delete q => ∀ s ∈ q.consumers.take ((told q.consumers).length + 1), s.channel = ch →
      r.tag.sameKey s.tag = false ∧ r.number ≠ s.number
  | start .. => True
  | finish gone => (ch, r) ∉ gone

/-- The entry is made with the change. -/
def Change.Enters (ch : Nat) (r : Registered) : Change → Prop
  | start _ s name => s.channel = ch ∧ r = ⟨s.tag, name, s.number⟩
  | _ => False

/-- A consumer that starts with the change is new to its channel. -/
def Change.IsNew (b : Broker) : Change → Prop
  | start _ s _ => ∀ c, b.openChannel s.channel = .ok c → c.IsNew s.number s.tag
  | _ => True

/-- A queue that is left has fewer consumers, the same ones, or one more that is started. -/
theorem Change.consumers_of_remains {x : Queue} (h : k.remains q = some x) :
    x.consumers.Sublist q.consumers ∨
      ∃ s name, k = .start q.id s name ∧ x.consumers = q.consumers ++ [s] := by
  cases k with
  | declare q₀ =>
    obtain rfl := Option.some.inj h
    exact .inl (List.Sublist.refl _)
  | delete q₀ =>
    obtain ⟨_, hsame⟩ := Option.ite_none_left_eq_some.mp h
    obtain rfl := Option.some.inj hsame
    exact .inl (List.Sublist.refl _)
  | start id s name =>
    obtain rfl := Option.some.inj h
    by_cases hid : q.id = id
    · subst hid
      rw [if_pos rfl]
      exact .inr ⟨s, name, rfl, rfl⟩
    · rw [if_neg hid]
      exact .inl (List.Sublist.refl _)
  | finish gone =>
    rw [Queue.of_without? h]
    exact .inl List.filter_sublist

/-- What is in a registry belongs to an open channel. -/
theorem mem_registry_iff : r ∈ b.registry ch ↔ ∃ c, b.openChannel ch = .ok c ∧ r ∈ c.consumers := by
  rw [registry]
  cases b.openChannel ch with
  | ok c => simp only [Except.ok.injEq, exists_eq_left']
  | error f => simp only [List.not_mem_nil, reduceCtorEq, false_and, exists_false]

/-- Entries of one channel are apart. -/
theorem Attended.apart_of_mem (hb : b.Attended) {r' : Registered} (hr : r ∈ b.registry ch)
    (hr' : r' ∈ b.registry ch) (hne : r ≠ r') : r.Apart r' := by
  obtain ⟨c, hopen, hr⟩ := mem_registry_iff.mp hr
  rw [registry_of_openChannel hopen] at hr'
  exact hb.apart_of_ne (List.mem_of_getElem? (openChannel_eq_ok.mp hopen).1) hr hr' hne

/-- A channel that forgets consumers keeps the other entries. -/
theorem registry_forget (b : Broker) (s : Consumer) (ch : Nat) :
    (b.forget s).registry ch = if s.channel = ch then
      (b.registry ch).filter fun r => !(r.tag.sameKey s.tag || r.number == s.number)
    else b.registry ch := by
  by_cases hch : s.channel = ch
  · subst hch
    rw [if_pos rfl]
    exact registry_modifyChannel_self (by intro; rfl)
      (g := fun rs => rs.filter fun r => !(r.tag.sameKey s.tag || r.number == s.number))
      (by intro; rfl) fun _ => rfl
  · rw [if_neg hch]
    exact registry_modifyChannel_of_ne hch

theorem mem_registry_forgets {ss : List Consumer} :
    r ∈ (ss.foldl forget b).registry ch ↔ r ∈ b.registry ch ∧
      ∀ s ∈ ss, s.channel = ch → r.tag.sameKey s.tag = false ∧ r.number ≠ s.number := by
  induction ss generalizing b with
  | nil => simp only [List.foldl_nil, List.not_mem_nil, false_implies, implies_true, and_true]
  | cons s ss ih =>
    rw [List.foldl_cons, ih, registry_forget, List.forall_mem_cons]
    by_cases hch : s.channel = ch
    · simp only [hch, if_true, List.mem_filter, true_implies, Bool.not_eq_true',
        Bool.or_eq_false_iff, beq_eq_false_iff_ne, and_assoc]
    · simp only [hch, if_false, false_implies, true_and]

/-- A cancelled consumer's entry is the only one that goes. -/
theorem mem_registry_cancel (hb : b.Attended) {ch₀ : Nat} {c : Channel} {tag : Value}
    {r₀ : Registered} (hopen : b.openChannel ch₀ = .ok c)
    (hr₀ : c.consumers.find? (·.tag.sameKey tag) = some r₀) :
    r ∈ (b.cancel ch₀ c tag).registry ch ↔ r ∈ b.registry ch ∧ (ch, r) ≠ (ch₀, r₀) := by
  have htag₀ : r₀.tag.sameKey tag = true := by simpa using List.find?_some hr₀
  have hmem₀ : r₀ ∈ b.registry ch₀ := by
    rw [registry_of_openChannel hopen]
    exact List.mem_of_find?_eq_some hr₀
  simp only [cancel, hr₀]
  rw [registry_of_channels (channels_removeConsumer _ r₀)]
  by_cases hch : ch₀ = ch
  · subst hch
    have hfilter : (b.modifyChannel ch₀ fun c =>
        { c with consumers := c.consumers.filter (!·.tag.sameKey tag) }).registry ch₀ =
          (b.registry ch₀).filter (!·.tag.sameKey tag) :=
      registry_modifyChannel_self (by intro; rfl)
        (g := fun rs => rs.filter (!·.tag.sameKey tag)) (by intro; rfl) fun _ => rfl
    rw [hfilter, List.mem_filter]
    refine and_congr_right fun hr => ?_
    rw [Bool.not_eq_true', ne_eq, Prod.mk.injEq, not_and]
    constructor
    · rintro hother - rfl
      exact Bool.false_ne_true (hother.symm.trans htag₀)
    · intro hne
      have hapart := hb.apart_of_mem hr hmem₀ (hne rfl)
      refine Bool.eq_false_iff.mpr fun hsame => ?_
      have hkey : r.tag.sameKey r₀.tag = true := by
        rw [Value.sameKey_congr hsame, Value.sameKey_comm, htag₀]
      exact Bool.false_ne_true (hapart.1.symm.trans hkey)
  · rw [registry_modifyChannel_of_ne hch]
    simp only [ne_eq, Prod.mk.injEq, Ne.symm hch, false_and, not_false_eq_true, and_true]

theorem mem_entriesOf {ch₀ : Nat} : (ch, r) ∈ b.entriesOf ch₀ ↔ ch = ch₀ ∧ r ∈ b.registry ch := by
  simp only [entriesOf, List.mem_map, Prod.mk.injEq]
  constructor
  · rintro ⟨r', hr', rfl, rfl⟩
    exact ⟨rfl, hr'⟩
  · rintro ⟨rfl, hr⟩
    exact ⟨r, hr, rfl, rfl⟩

/-- The entries of all channels are those of each. -/
theorem mem_registered : (ch, r) ∈ b.registered ↔ r ∈ b.registry ch := by
  simp only [registered, List.mem_flatMap, List.mem_range, mem_entriesOf]
  constructor
  · rintro ⟨ch₀, _, rfl, hr⟩
    exact hr
  · intro hr
    obtain ⟨c, hopen, _⟩ := mem_registry_iff.mp hr
    exact ⟨ch, (List.getElem?_eq_some_iff.mp (openChannel_eq_ok.mp hopen).1).1, rfl, hr⟩

/-- The entries after a change are those that it keeps and the one that it makes. -/
theorem Turn.mem_registry (h : Turn b k b') (hb : b.Attended) (hnew : k.IsNew b) :
    r ∈ b'.registry ch ↔ (r ∈ b.registry ch ∧ k.Keeps ch r) ∨ k.Enters ch r := by
  cases h with
  | quiet h =>
    simp only [h.registry, Change.Keeps, Change.Enters, List.not_mem_nil, not_false_eq_true,
      and_true, or_false]
  | bound _ hchannels _ _ =>
    simp only [registry_of_channels hchannels, Change.Keeps, Change.Enters, List.not_mem_nil,
      not_false_eq_true, and_true, or_false]
  | declared _ _ hchannels _ _ =>
    simp only [registry_of_channels hchannels, Change.Keeps, Change.Enters, and_true, or_false]
  | @deleted _ q _ =>
    rw [mem_registry_forgets]
    simp only [Change.Keeps, Change.Enters, or_false]
    exact Iff.rfl
  | @started _ ch₀ number name tag mode q c hopen _ _ hchannels _ _ =>
    have hregister : register ⟨tag, name, number⟩ c.consumers = c.consumers ++ _ :=
      register_of_new fun r hr => (hnew c hopen r hr).1
    simp only [registry_of_channels hchannels, Change.Keeps, Change.Enters, and_true]
    by_cases hch : ch₀ = ch
    · subst hch
      have hopen' : (b.modifyChannel ch₀ fun c =>
          { c with consumers := register ⟨tag, name, number⟩ c.consumers }).openChannel ch₀ =
            .ok { c with consumers := register ⟨tag, name, number⟩ c.consumers } := by
        rw [openChannel_modifyChannel (by intro; rfl), hopen]
        rfl
      rw [registry_of_openChannel hopen', registry_of_openChannel hopen]
      simp only [hregister, List.mem_append, List.mem_singleton, true_and]
    · rw [registry_modifyChannel_of_ne hch]
      simp only [hch, false_and, or_false]
  | cancelled hopen hr₀ =>
    simp only [mem_registry_cancel hb hopen hr₀, Change.Keeps, Change.Enters, List.mem_singleton,
      or_false, ne_eq]
  | @ended b₀ ch₀ error h =>
    simp only [Change.Keeps, Change.Enters, or_false, registry_terminate, h.registry, mem_entriesOf]
    by_cases hch : ch₀ = ch
    · simp only [hch, if_true, List.not_mem_nil, true_and, and_not_self]
    · simp only [hch, Ne.symm hch, if_false, false_and, not_false_eq_true, and_true]
  | @disconnected error =>
    simp only [fst_disconnect, registry_terminates, Change.Keeps, Change.Enters, or_false,
      mem_registered, and_not_self, iff_false, List.mem_range]
    by_cases hch : ch < b.channels.length
    · simp only [hch, if_true, List.not_mem_nil, not_false_eq_true]
    · rw [if_neg hch]
      intro hr
      obtain ⟨c, hopen, _⟩ := mem_registry_iff.mp hr
      exact hch (List.getElem?_eq_some_iff.mp (openChannel_eq_ok.mp hopen).1).1

/-! ## What an event ends and starts -/

/-- What starts a consumer is an asked-for consumer. -/
theorem change_eq_start {id : Nat} {s : Consumer} {name : Value}
    (h : e.change b = .start id s name) : ∃ options,
      e = .request s.channel s.number (.basicConsume name options) ∧ s.tag = b.tagOf options ∧
        ∃ q, b.queue? name = some q ∧ q.id = id := by
  cases e with
  | request ch number p =>
    simp only [Event.change] at h
    cases hopen : b.openChannel ch with
    | error f => simp only [hopen, reduceCtorEq] at h
    | ok c =>
      rw [hopen] at h
      cases p with
      | basicConsume asked options =>
        simp only [change] at h
        cases hq : b.queue? asked with
        | none => simp only [hq, reduceCtorEq] at h
        | some q =>
          simp only [hq, Change.start.injEq] at h
          obtain ⟨hid, rfl, rfl⟩ := h
          exact ⟨options, rfl, rfl, q, hq, hid⟩
      | queueDeclare spec => simp only [change] at h; split at h <;> cases h
      | queueDelete name => simp only [change] at h; split at h <;> cases h
      | _ => cases h
  | _ => cases h

theorem Event.IsNew.change (h : e.IsNew b) : (e.change b).IsNew b := by
  cases hk : e.change b with
  | start id s name =>
    obtain ⟨options, rfl, htag, q, hq, _⟩ := change_eq_start hk
    intro c hopen
    rw [htag]
    exact h (Option.isSome_of_eq_some hq) c (openChannel_eq_ok.mp hopen).1
  | _ => trivial

/-- What an open channel ends when it is asked for a primitive is registered by it. -/
theorem of_change_eq_finish {number : Nat} {c : Channel} {p : Amqp.Channel.Primitive}
    {gone : List (Nat × Registered)} (hopen : b.openChannel ch = .ok c)
    (h : b.change ch number c p = .finish gone) {x : Nat × Registered} (hx : x ∈ gone) :
    x.1 = ch ∧ x.2 ∈ b.registry ch := by
  have hentry (t : Bool) (hx : x ∈ if t then b.entriesOf ch else []) :
      x.1 = ch ∧ x.2 ∈ b.registry ch := by
    cases t with
    | true =>
      obtain ⟨hch, hr⟩ := mem_entriesOf.mp hx
      exact ⟨hch, hch ▸ hr⟩
    | false => cases hx
  cases p with
  | close params => exact hentry _ (Change.finish.inj h ▸ hx)
  | abort params => exact hentry _ (Change.finish.inj h ▸ hx)
  | basicCancel tag =>
    obtain rfl := Change.finish.inj h
    obtain ⟨r, hr, rfl⟩ := List.mem_map.mp hx
    rw [registry_of_openChannel hopen]
    exact ⟨rfl, List.mem_of_find?_eq_some (Option.mem_toList.mp hr)⟩
  | queueDeclare spec => simp only [change] at h; split at h <;> cases h; cases hx
  | queueDelete name => simp only [change] at h; split at h <;> cases h; cases hx
  | basicConsume name options => simp only [change] at h; split at h <;> cases h; cases hx
  | _ => cases h; cases hx

/-- What ends is registered, and it is of the channel that is asked to end it, unless all channels
end. -/
theorem of_mem_finished {x : Nat × Registered} (hx : x ∈ e.finished b) :
    x.2 ∈ b.registry x.1 ∧
      ((∃ error, e = .disconnect error) ∨ ∃ number p, e = .request x.1 number p) := by
  rw [Event.finished] at hx
  cases hk : e.change b with
  | finish gone =>
    rw [hk] at hx
    cases e with
    | request ch number p =>
      simp only [Event.change] at hk
      cases hopen : b.openChannel ch with
      | error f =>
        simp only [hopen, Change.finish.injEq] at hk
        rw [← hk] at hx
        cases hx
      | ok c =>
        rw [hopen] at hk
        obtain ⟨hch, hr⟩ := of_change_eq_finish hopen hk hx
        rw [hch]
        exact ⟨hr, .inr ⟨number, p, rfl⟩⟩
    | disconnect error =>
      obtain rfl := Change.finish.inj hk
      exact ⟨mem_registered.mp hx, .inl ⟨error, rfl⟩⟩
    | openChannel => cases hk; cases hx
    | serve => cases hk; cases hx
    | refuseNext error => cases hk; cases hx
  | _ => rw [hk] at hx; cases hx

/-- The number that a consumer is asked for under. -/
def Event.startNumber? : Event → Option Nat
  | .request _ number (.basicConsume ..) => some number
  | _ => none

/-- Consumers are asked for under numbers of their own. -/
def StartsApart (events : List Event) : Prop := (events.filterMap Event.startNumber?).Nodup

/-! ## Numbers -/

/-- A number is that of one entry, and of one consumer of one queue; all of them are known. -/
structure Distinct (b : Broker) (known : List Nat) : Prop where
  known : ∀ ch, ∀ r ∈ b.registry ch, r.number ∈ known
  unique : ∀ ch ch' r r', r ∈ b.registry ch → r' ∈ b.registry ch' → r.number = r'.number →
    ch = ch' ∧ r = r'
  consumers : ∀ q ∈ b.queues, (q.consumers.map (·.number)).Nodup

/-- A consumer of a queue has an entry in the registry of its channel. -/
theorem Attended.exists_entry (hb : b.Attended) (hq : q ∈ b.queues) {s : Consumer}
    (hs : s ∈ q.consumers) : ∃ r ∈ b.registry s.channel, r.StandsFor b q s := by
  obtain ⟨c, hc, hclosed, r, hr, hstands⟩ := hb.registered q hq s hs
  exact ⟨r, mem_registry_iff.mpr ⟨c, openChannel_eq_ok.mpr ⟨hc, hclosed⟩, hr⟩, hstands⟩

/-- Consumers of one number are the same. -/
theorem Distinct.eq_of_number {known : List Nat} (h : b.Distinct known) (hb : b.Attended)
    (hnamed : b.Named) {q' : Queue} {s s' : Consumer} (hq : q ∈ b.queues) (hs : s ∈ q.consumers)
    (hq' : q' ∈ b.queues) (hs' : s' ∈ q'.consumers) (hnumber : s.number = s'.number) :
    q = q' ∧ s = s' := by
  obtain ⟨r, hr, hstands⟩ := hb.exists_entry hq hs
  obtain ⟨r', hr', hstands'⟩ := hb.exists_entry hq' hs'
  obtain ⟨_, rfl⟩ := h.unique _ _ r r' hr hr' (by rw [hstands.number, hnumber, hstands'.number])
  have hid : q.id = q'.id := Option.some.inj (hstands.queue.symm.trans hstands'.queue)
  obtain rfl := hnamed.eq_of_id hq hq' hid
  exact ⟨rfl, List.inj_on_of_nodup_map (h.consumers q hq) hs hs' hnumber⟩

/-- The entries after a step are those that its change keeps and the one that it makes. -/
theorem mem_registry_step (hb : b.Attended) (hnew : e.IsNew b) (ch : Nat) (r : Registered) :
    r ∈ (b.step e).broker.registry ch ↔
      (r ∈ b.registry ch ∧ (e.change b).Keeps ch r) ∨ (e.change b).Enters ch r :=
  (turn_step b e).mem_registry hb hnew.change

/-- An entry is made for the consumer that an event asks for. -/
theorem startNumber?_of_enters (h : (e.change b).Enters ch r) :
    e.startNumber? = some r.number := by
  cases hk : e.change b with
  | start id s name =>
    rw [hk] at h
    obtain ⟨options, rfl, _⟩ := change_eq_start hk
    rw [h.2]
    rfl
  | _ => rw [hk] at h; cases h

/-- A step keeps numbers distinct if it starts no consumer under a known one. -/
theorem Distinct.step {known : List Nat} (h : b.Distinct known) (hb : b.Attended)
    (hnamed : b.Named) (hnew : e.IsNew b) (hstart : ∀ n ∈ e.startNumber?, n ∉ known) :
    (b.step e).broker.Distinct (known ++ e.startNumber?.toList) := by
  have hentered (ch : Nat) (r : Registered) (hr : (e.change b).Enters ch r) : r.number ∉ known :=
    hstart _ (startNumber?_of_enters hr)
  refine ⟨?_, ?_, ?_⟩
  · intro ch r hr
    rcases (mem_registry_step hb hnew ch r).mp hr with ⟨hr, _⟩ | hr
    · exact List.mem_append_left _ (h.known ch r hr)
    · rw [startNumber?_of_enters hr]
      exact List.mem_append_right _ (List.mem_singleton_self _)
  · intro ch ch' r r' hr hr' hnumber
    rcases (mem_registry_step hb hnew ch r).mp hr with ⟨hr, _⟩ | hr <;>
      rcases (mem_registry_step hb hnew ch' r').mp hr' with ⟨hr', _⟩ | hr'
    · exact h.unique ch ch' r r' hr hr' hnumber
    · exact absurd (hnumber ▸ h.known ch r hr) (hentered ch' r' hr')
    · exact absurd (hnumber ▸ h.known ch' r' hr') (hentered ch r hr)
    · cases hk : e.change b with
      | start id s name =>
        rw [hk] at hr hr'
        exact ⟨hr.1.symm.trans hr'.1, hr.2.trans hr'.2.symm⟩
      | _ => rw [hk] at hr; cases hr
  · intro q' hq'
    rcases exists_of_mem_step hnamed hq' with ⟨q, hq, hremains⟩ | hadded
    · rcases Change.consumers_of_remains hremains with hsub | ⟨s, name, hk, hmore⟩
      · exact (h.consumers q hq).sublist (hsub.map _)
      · obtain ⟨options, rfl, _⟩ := change_eq_start hk
        have hnumber (s' : Consumer) (hs' : s' ∈ q.consumers) : s'.number ≠ s.number := by
          obtain ⟨r, hr, hstands⟩ := hb.exists_entry hq hs'
          intro hsame
          refine hstart s.number rfl ?_
          rw [← hsame, ← hstands.number]
          exact h.known _ r hr
        rw [Queue.shell_consumers, Queue.shell_consumers] at hmore
        rw [hmore, List.map_append, List.nodup_append]
        refine ⟨h.consumers q hq, List.nodup_singleton _, ?_⟩
        intro n hn n' hn'
        obtain ⟨s', hs', rfl⟩ := List.mem_map.mp hn
        rw [List.mem_singleton.mp hn']
        exact hnumber s' hs'
    · obtain ⟨_, _, hnone, _⟩ := (turn_step b e).of_added hadded
      rw [← Queue.shell_consumers, hnone]
      exact List.nodup_nil

/-! ## Runs -/

theorem isFreshFrom_append {u v : List Event} :
    b.IsFreshFrom (u ++ v) ↔ b.IsFreshFrom u ∧ (b.run u).IsFreshFrom v := by
  induction u generalizing b with
  | nil => simp only [List.nil_append, IsFreshFrom, true_and, run, List.foldl_nil]
  | cons e u ih => simp only [List.cons_append, IsFreshFrom, ih, and_assoc, run, List.foldl_cons]

/-- What a broker has at every moment of a run whose consumers are new and asked for apart. -/
structure Ordered (b : Broker) (known : List Nat) : Prop where
  named : b.Named
  attended : b.Attended
  distinct : b.Distinct known

theorem attended_reached {events : List Event} (hfresh : IsFresh events) :
    (reached events).Attended :=
  attended_empty.moves (moves_run keyed_empty attended_empty hfresh)

theorem ordered_reached {events : List Event} (hfresh : IsFresh events)
    (hapart : StartsApart events) :
    (reached events).Ordered (events.filterMap Event.startNumber?) := by
  refine ⟨named_reached events, attended_reached hfresh, ?_⟩
  induction events using List.reverseRecOn with
  | nil =>
    exact ⟨fun _ => List.forall_mem_nil _, fun _ _ _ _ hr => (by cases hr), List.forall_mem_nil _⟩
  | append_singleton events e ih =>
    obtain ⟨hfresh, hnew, _⟩ := isFreshFrom_append.mp hfresh
    rw [StartsApart, List.filterMap_append, List.nodup_append] at hapart
    obtain ⟨hapart, _, hdisjoint⟩ := hapart
    have hstart (n : Nat) (hn : n ∈ e.startNumber?) :
        n ∉ events.filterMap Event.startNumber? := by
      intro hmem
      have hlast : n ∈ [e].filterMap Event.startNumber? :=
        List.mem_filterMap.mpr ⟨e, List.mem_singleton_self _, hn⟩
      exact hdisjoint n hmem n hlast rfl
    have hknown : (events ++ [e]).filterMap Event.startNumber? =
        events.filterMap Event.startNumber? ++ e.startNumber?.toList := by
      rw [List.filterMap_append]
      cases hn : e.startNumber? <;> simp [hn]
    rw [reached_concat, hknown]
    exact (ih hfresh hapart).step (attended_reached hfresh) (named_reached events) hnew hstart

/-- So it is at every moment of the run, and what follows is fresh. -/
theorem ordered_of_append {events u v : List Event} (hfresh : IsFresh events)
    (hapart : StartsApart events) (hevents : events = u ++ v) :
    (reached u).Ordered (u.filterMap Event.startNumber?) ∧ (reached u).IsFreshFrom v := by
  subst hevents
  obtain ⟨hu, hv⟩ := isFreshFrom_append.mp hfresh
  rw [StartsApart, List.filterMap_append, List.nodup_append] at hapart
  exact ⟨ordered_reached hu hapart.1, hv⟩

end Amqp.Broker
