import Amqp.Proofs.Channel.Multiple
import Amqp.Proofs.Session.Accounts
import Mathlib.Data.List.Pairwise

/-!
# When the two parts of a session agree

The adapter lets messages go when the client gets a settlement, the channel takes deliveries off its
ledger when it hears that the client has accepted it. While no settlement is in flight the two agree
on what is outstanding, as long as the client refuses no settlement and no close that it has carried
out is on its way back to the channel.
-/

namespace Amqp

namespace Session

open Channel (Machine)

/-- The messages that the client hands over in a run. -/
def messages (events : List Event) : List Message := events.filterMap Event.message?

/-- The settlements that the client gets in a run, each by its tag and by whether it takes the
smaller ones along. -/
def settlements (id : String) (events : List Event) : List (Nat × Bool) :=
  (called id events).filterMap Client.Call.settles?

/-- What callers and the client keep to: no two requests go under one number, and the messages have
properties and come under assigned, growing tags. -/
structure Proper (events : List Event) : Prop where
  numbered : (events.filterMap Event.issued?).Nodup
  formed : ∀ m ∈ messages events, m.properties.isGiven = true
  assigned : ∀ m ∈ messages events, ∃ n, m.tag = .assigned n
  increasing : ((messages events).filterMap (·.tag.number?)).Pairwise (· < ·)

/-- The client does not refuse a settlement with the event. -/
def Event.IsWilling (e : Event) (s : Session) : Prop :=
  ∀ call thrown, e = .replied call (.threw thrown) →
    ∀ p ∈ s.adapter.pending, p.id = call → ¬p.primitive.IsSettlement

/-- The client refuses no settlement in a run. -/
def Willing (id : String) (events : List Event) : Prop :=
  ∀ u e v, events = u ++ e :: v → e.IsWilling (reached id u)

variable {id : String} {u v events : List Event} {e : Event} {s s' : Session}
  {past : List Message} {settled : List (Nat × Bool)} {call : Nat}

theorem settlements_concat (id : String) (u : List Event) (e : Event) :
    settlements id (u ++ [e]) =
      settlements id u ++ ((reached id u).calls e).filterMap Client.Call.settles? := by
  rw [settlements, called_concat, List.filterMap_append]
  rfl

theorem messages_concat (u : List Event) (e : Event) :
    messages (u ++ [e]) = messages u ++ e.message?.toList := by
  rw [messages, List.filterMap_append]
  cases h : e.message? <;> simp [messages, h]

namespace Proper

/-- A part of a proper run is one too. -/
theorem of_append_left (h : Proper (u ++ v)) : Proper u := by
  have hmessages : messages (u ++ v) = messages u ++ messages v := List.filterMap_append
  obtain ⟨hnumbered, hformed, hassigned, hincreasing⟩ := h
  rw [List.filterMap_append] at hnumbered
  rw [hmessages] at hformed hassigned hincreasing
  rw [List.filterMap_append] at hincreasing
  exact ⟨hnumbered.of_append_left, fun m hm => hformed m (List.mem_append_left _ hm),
    fun m hm => hassigned m (List.mem_append_left _ hm), (List.pairwise_append.mp hincreasing).1⟩

/-- In a proper run each request comes under a new number. -/
theorem newFor (h : Proper (u ++ e :: v)) : e.NewFor (reached id u) := by
  rintro call hissued c hc rfl
  have hnumbered := h.numbered
  rw [List.filterMap_append] at hnumbered
  refine List.disjoint_of_nodup_append hnumbered (issued_of_mem_calls hc) ?_
  rw [List.filterMap_cons, hissued]
  exact List.mem_cons_self ..

/-- In a proper run the messages have properties. -/
theorem isFormed (h : Proper (u ++ e :: v)) : e.IsFormed := by
  intro m hm
  refine h.formed m (List.mem_filterMap.mpr ⟨e, by simp, hm⟩)

/-- In a proper run each message comes under a larger tag than all before. -/
theorem nextAfter (h : Proper (u ++ e :: v)) : e.NextAfter (messages u) := by
  intro m hm
  obtain ⟨n, htag⟩ := h.assigned m (List.mem_filterMap.mpr ⟨e, by simp, hm⟩)
  refine ⟨n, htag, ?_⟩
  intro m' hm' k htag'
  have hincreasing := h.increasing
  rw [messages, List.filterMap_append, List.filterMap_append, List.pairwise_append] at hincreasing
  refine hincreasing.2.2 k ?_ n ?_
  · exact List.mem_filterMap.mpr ⟨m', hm', by rw [htag']; rfl⟩
  · refine List.mem_filterMap.mpr ⟨m, ?_, by rw [htag]; rfl⟩
    exact List.mem_filterMap.mpr ⟨e, List.mem_cons_self .., hm⟩

/-- After a proper run the parts of a session hang together. -/
theorem linked (h : Proper u) : (reached id u).Linked := by
  induction u using List.reverseRecOn with
  | nil => exact linked_opened id
  | append_singleton u e ih =>
    rw [reached_concat]
    exact (ih h.of_append_left).step h.newFor h.isFormed

/-- After a proper run a session keeps account of the messages handed over and of the settlements
that the client got. -/
theorem accounted (h : Proper u) : (reached id u).Accounted (messages u) (settlements id u) := by
  induction u using List.reverseRecOn with
  | nil => exact accounted_opened id
  | append_singleton u e ih =>
    rw [reached_concat, messages_concat, settlements_concat]
    exact (ih h.of_append_left).step h.of_append_left.linked h.newFor h.isFormed h.nextAfter

/-- Messages of a proper run with one tag are one message. -/
theorem eq_of_tag (h : Proper u) {m m' : Message} (hm : m ∈ messages u) (hm' : m' ∈ messages u)
    {n : Nat} (htag : m.tag = .assigned n) (htag' : m'.tag = .assigned n) : m = m' := by
  have hdistinct := List.pairwise_filterMap.mp (h.increasing.imp Nat.ne_of_lt)
  by_contra hne
  have hsymm : Std.Symm fun m m' : Message => ∀ k, m.tag.number? = some k →
      ∀ k', m'.tag.number? = some k' → k ≠ k' :=
    ⟨fun _ _ hapart k hk k' hk' => (hapart k' hk' k hk).symm⟩
  have hapart := hdistinct.forall hm hm' hne
  exact hapart n (by rw [htag]; rfl) n (by rw [htag']; rfl) rfl

end Proper

/-- A settlement that the client got is in flight, or all that it covers is off the channel's
ledger. -/
def Released (s : Session) (settled : List (Nat × Bool)) : Prop :=
  s.IsLasting → ∀ a ∈ settled, (∃ call, s.machine.asked? call = some a ∧ s.Granted call) ∨
    ∀ k, Covers a.1 a.2 k → ¬s.Tracks k

namespace Released

/-- What has been released stays so where the channel's accounts do, and what is granted stays
granted. -/
theorem of_calm (h : s.Released settled) {new : Option Nat}
    (hcalm : Machine.Calm new s.machine s'.machine) (hlasting : s'.IsLasting → s.IsLasting)
    (hgranted : ∀ call a, s.machine.asked? call = some a → s.Granted call →
      new ≠ some call ∧ s'.Granted call) : s'.Released settled := by
  intro hs a ha
  rcases h (hlasting hs) a ha with ⟨call, hasked, hcall⟩ | hoff
  · obtain ⟨hne, hcall⟩ := hgranted call a hasked hcall
    exact .inl ⟨call, (hcalm.asked? call hne).trans hasked, hcall⟩
  · refine .inr fun k hcovers htracks => hoff k hcovers ?_
    rwa [Tracks, hcalm.pending hs.1] at htracks

/-- What is granted stays so when the channel asks for one more primitive. -/
theorem granted_asked (h : s.Granted call) (call' : Nat) (p : Channel.Primitive) {m : Machine}
    {subscriptions : List Subscription} :
    Granted
      { machine := m
        adapter := (s.adapter.issue call' p).1
        subscriptions
        outcomes := s.outcomes ++ Client.ended (s.adapter.issue call' p).2 } call := by
  rcases h with ⟨p', hp', hid⟩ | ⟨reply, ho⟩
  · exact .inl ⟨p', (Client.Adapter.issued_issue s.adapter call' p).mem_of_mem hp', hid⟩
  · exact .inr ⟨reply, List.mem_append_left _ ho⟩

/-- What is granted stays so when the client answers, unless it refuses a settlement. -/
theorem granted_replied (hlinked : s.Linked) {o : Channel.Outcome} {p : Client.Pending}
    (hwilling : (Event.replied call o).IsWilling s)
    (hp : s.adapter.pending.find? (·.id == call) = some p) {call' : Nat} {a : Nat × Bool}
    (hasked : s.machine.asked? call' = some a) (h : s.Granted call') :
    Granted
      { s with
        adapter := ({ s.adapter with
          pending := s.adapter.pending.filter (·.id != call) }.answer p o).1
        outcomes := s.outcomes ++ [(call, Client.Adapter.conclusion p o)] } call' := by
  obtain ⟨hmem, hid⟩ : p ∈ s.adapter.pending ∧ p.id = call :=
    ⟨List.mem_of_find?_eq_some hp, by simpa using List.find?_some hp⟩
  have hanswer := Client.Adapter.answered_answer
    { s.adapter with pending := s.adapter.pending.filter (·.id != call) } p o
  rcases h with ⟨p', hp', hid'⟩ | ⟨reply, ho⟩
  · by_cases hne : call' = call
    · obtain ⟨c, hcall, hcarries⟩ := hlinked.carried p hmem
      have hcall : s.machine.call? call' = some c := by rw [hne, ← hid, hcall]
      have hsettles := (hcarries.settles?_iff hcall).mp hasked
      cases o with
      | threw thrown =>
        refine absurd ?_ (hwilling call thrown rfl p hmem hid)
        unfold Channel.Primitive.settles? at hsettles
        split at hsettles
        · rename_i hprimitive
          rw [hprimitive]
          exact trivial
        · rename_i hprimitive
          rw [hprimitive]
          exact trivial
        · exact nomatch hsettles
      | replied reply =>
        refine .inr ⟨.undefined, List.mem_append_right _ ?_⟩
        rw [Client.Adapter.conclusion_of_settles hsettles, hne]
        exact List.mem_singleton_self _
    · refine .inl ⟨p', ?_, hid'⟩
      rw [hanswer.pending]
      exact List.mem_filter.mpr ⟨hp', by simpa [hid'] using hne⟩
  · exact .inr ⟨reply, List.mem_append_left _ ho⟩

/-- The channel hears of an answer: what an accepted settlement covers is off its ledger. -/
theorem step_answered (h : s.Released settled) (hlinked : s.Linked) (hsound : s.machine.Sound)
    {o : Channel.Outcome} (ho : (call, o) ∈ s.outcomes)
    (hs' : s' =
      { s with
        machine := (s.machine.step (.answered call o)).1
        outcomes := s.outcomes.filter (·.1 != call) })
    (hlasting : s'.IsLasting → s.IsLasting) : s'.Released settled := by
  subst hs'
  have hsub {entry : Tag × Nat}
      (hd : entry ∈ (s.machine.step (.answered call o)).1.channel.pending) :
      entry ∈ s.machine.channel.pending := by
    cases Channel.ledgerChange_step s.machine (.answered call o) with
    | same hsame => exact hsame ▸ hd
    | ended _ hnone =>
      rw [hnone] at hd
      exact nomatch hd
    | settled _ _ _ _ hchannel =>
      rw [hchannel, Channel.pending_release] at hd
      exact TagMap.mem_of_mem_kept hd
    | tracked hl => exact nomatch hl
  intro hs a ha
  rcases h (hlasting hs) a ha with ⟨call', hasked, hgranted⟩ | hoff
  · by_cases hne : call' = call
    · subst hne
      have hreplied : ∃ reply, o = .replied reply := by
        rcases hgranted with ⟨p, hp, hid⟩ | ⟨reply, ho'⟩
        · exact absurd hid (hlinked.notMem_pending ho hp)
        · exact ⟨reply, hlinked.eq_of_mem ho ho'⟩
      obtain ⟨reply, rfl⟩ := hreplied
      refine .inr ?_
      rintro k hcovers ⟨d, hd⟩
      obtain ⟨n, htag, hmanual⟩ := hsound.ledger _ _ (hsub hd)
      obtain rfl := Tag.assigned.inj htag
      exact hsound.not_tracks_of_accepts hmanual ⟨call', reply, rfl, hasked⟩ hcovers ⟨_, hd⟩
    · have habout : (Channel.Event.answered call o).call? ≠ some call' := fun he =>
        hne (Option.some.inj he).symm
      refine .inl ⟨call', (Machine.asked?_congr (Machine.call?_step_of_ne habout)).trans hasked, ?_⟩
      rcases hgranted with hp | ⟨reply, ho'⟩
      · exact .inl hp
      · exact .inr ⟨reply, List.mem_filter.mpr ⟨ho', by simpa using hne⟩⟩
  · exact .inr fun k hcovers htracks => hoff k hcovers (htracks.imp fun _ hd => hsub hd)

/-- A message is handed over: no earlier settlement covers its tag. -/
theorem step_handed (h : s.Released settled) (haccounted : s.Accounted past settled)
    (number : Nat) {n : Nat} {mode : AckMode} {message : Message} (htag : message.tag = .assigned n)
    (hnext : ∀ m ∈ past, ∀ k, m.tag = .assigned k → k < n) {a : Client.Adapter}
    (hs' : s' =
      { s with
        machine := (s.machine.step (.arrived number mode message.received)).1
        adapter := a })
    (hpending : a.pending = s.adapter.pending) (hlasting : s'.IsLasting → s.IsLasting) :
    s'.Released settled := by
  subst hs'
  intro hs b hb
  rcases h (hlasting hs) b hb with ⟨call, hasked, hgranted⟩ | hoff
  · refine .inl ⟨call, ?_, ?_⟩
    · rw [Machine.asked?_congr (Machine.call?_step_of_ne (by nofun)), hasked]
    · rcases hgranted with ⟨p, hp, hid⟩ | ho
      · exact .inl ⟨p, hpending ▸ hp, hid⟩
      · exact .inr ho
  · refine .inr ?_
    rintro k hcovers ⟨d, hd⟩
    rcases Channel.tag_of_mem_pending_step hd with hold | ⟨l, hl, hk⟩
    · exact hoff k hcovers hold
    · obtain rfl := Option.some.inj hl
      obtain rfl : k = n := Tag.assigned.inj (hk.trans htag)
      exact haccounted.not_covered_of_next hnext ⟨b, hb, hcovers⟩

/-- The channel asks for a settlement. -/
theorem step_settlement (h : s.Released settled) (hlinked : s.Linked)
    (haccounted : s.Accounted past settled) {d n : Nat} {st : Settlement}
    {multiple requeue : Value} {delivery : Delivery}
    (hnew : (Event.issue call (.settle d st multiple requeue)).NewFor s)
    (hchannel : s.machine.channel.isOpen = true)
    (hd : s.machine.channel.deliveries[d]? = some delivery) (hawaits : delivery.Awaits n)
    {p : Channel.Primitive} (hp : p = Channel.Request.settlePrimitive st n
      (multiple.ifDefined (.bool false)) (requeue.ifDefined (.bool true)))
    (hs' : s' =
      { machine := (s.machine.step (.issue call (.settle d st multiple requeue))).1
        adapter := (s.adapter.issue call p).1
        subscriptions := s.subscriptions
        outcomes := s.outcomes ++ Client.ended (s.adapter.issue call p).2 })
    (hlasting : s'.IsLasting → s.IsLasting) :
    s'.Released (settled ++ (Client.called (s.adapter.issue call p).2).filterMap
      Client.Call.settles?) := by
  subst hp hs'
  have hold := h.of_calm hnew.calm hlasting fun call' a _ hgranted =>
    ⟨hlinked.ne_of_granted hnew rfl hgranted, granted_asked hgranted call _⟩
  intro hs a ha
  rcases List.mem_append.mp ha with ha | ha
  · exact hold hs a ha
  · refine .inl ⟨call, ?_⟩
    have hasked := Machine.asked?_step_settle hchannel hd hawaits
      (haccounted.sound.unique.step hnew.issue)
    cases hentry : s.adapter.unsettled.entry? (.assigned n) with
    | none =>
      rw [Client.Adapter.issue_settlePrimitive_of_missing hentry] at ha
      exact nomatch ha
    | some m =>
      have htag : m.tag = .assigned n :=
        (haccounted.kept _ _ (TagMap.mem_of_entry?_eq_some hentry)).2.1.symm
      rw [Client.Adapter.issue_settlePrimitive_of_waiting haccounted.assigned hentry] at ha ⊢
      simp only [Client.called, List.filterMap_cons, Client.Effect.called?, List.filterMap_nil,
        Client.settles?_settleCall htag, List.mem_singleton] at ha
      rw [ha]
      exact ⟨hasked, .inl ⟨_, List.mem_append_right _ (List.mem_singleton_self _), rfl⟩⟩

/-- Every step keeps what is released, as long as the client refuses no settlement. -/
theorem step (h : s.Released settled) (hlinked : s.Linked)
    (haccounted : s.Accounted past settled) (hnew : e.NewFor s) (hformed : e.IsFormed)
    (hnext : e.NextAfter past) (hwilling : e.IsWilling s) :
    (s.step e).Released (settled ++ (s.calls e).filterMap Client.Call.settles?) := by
  have hlasting := isLasting_of_step hlinked hnew hformed
  have hchange := step_transition s e
  generalize s.step e = s', s.calls e = calls at hchange hlasting
  cases hchange with
  | kept =>
    rw [List.filterMap_nil, List.append_nil]
    exact h.of_calm hnew.calm hlasting fun call' a _ hgranted =>
      ⟨hlinked.ne_of_granted hnew rfl hgranted, hgranted⟩
  | @asked call r c p hasks hid hcalls =>
    cases hasks with
    | @operation _ r summary p hp hchannel =>
      rw [Client.Adapter.filterMap_settles?_called (delivery?_of_primitive? hp).2,
        List.append_nil]
      exact h.of_calm hnew.calm hlasting fun call' a _ hgranted =>
        ⟨hlinked.ne_of_granted hnew rfl hgranted, granted_asked hgranted call p⟩
    | settlement hchannel hd hawaits =>
      exact h.step_settlement hlinked haccounted hnew hchannel hd hawaits rfl
        (by simp [Event.subscription?]) hlasting
  | replied hp =>
    rw [List.filterMap_nil, List.append_nil]
    exact h.of_calm (.refl _) hlasting fun call' a hasked hgranted =>
      ⟨(Option.some_ne_none call').symm, granted_replied hlinked hwilling hp hasked hgranted⟩
  | answered ho =>
    rw [List.filterMap_nil, List.append_nil]
    exact h.step_answered hlinked haccounted.sound ho rfl hlasting
  | @handed consumer message c hc hdetached =>
    obtain ⟨number, hnews⟩ := hlinked.news_hand hc hdetached (hformed message rfl)
    obtain ⟨n, htag, hbelow⟩ := hnext message rfl
    have hpending : (s.adapter.hand consumer message).1.pending = s.adapter.pending := by
      rw [hand_fst]
    rw [List.filterMap_nil, List.append_nil]
    exact h.step_handed haccounted number htag hbelow
      (by rw [hnews, machine_run_singleton]) hpending hlasting
  | aside hevents =>
    rw [List.filterMap_nil, List.append_nil]
    exact h.of_calm (calm_run hevents) hlasting fun call a _ hgranted =>
      ⟨(Option.some_ne_none call).symm, hgranted⟩

end Released

/-- What the client got and did not refuse is released, or in flight. -/
theorem Proper.released (h : Proper u) (hwilling : Willing id u) :
    (reached id u).Released (settlements id u) := by
  induction u using List.reverseRecOn with
  | nil => exact fun _ a ha => nomatch ha
  | append_singleton u e ih =>
    rw [reached_concat, settlements_concat]
    have hbefore : Willing id u := fun x f y hx => hwilling x f (y ++ [e]) (by simp [hx])
    exact (ih h.of_append_left hbefore).step h.of_append_left.linked h.of_append_left.accounted
      h.newFor h.isFormed h.nextAfter (hwilling u e [] rfl)

/-- No settlement is in flight. -/
def IsSettled (s : Session) : Prop := ∀ c ∈ s.machine.calls, c.request.delivery? = none

/-- Where no settlement is in flight, the transport has been asked for none. -/
theorem IsSettled.asked? (h : s.IsSettled) (call : Nat) : s.machine.asked? call = none := by
  cases hasked : s.machine.asked? call with
  | none => rfl
  | some a =>
    obtain ⟨c, d, st, multiple, requeue, wasOpen, hcall, hrequest, _⟩ :=
      Machine.asked?_eq_some_iff.mp hasked
    have hnone := h c (Machine.mem_of_call? hcall).1
    exact nomatch (Channel.Request.delivery?_of_settle hrequest).symm.trans hnone

/-- Where no settlement is in flight, the two parts of a lasting session have the same tags
outstanding. -/
theorem Proper.tracks_iff_waits (h : Proper u) (hwilling : Willing id u)
    (hlasting : (reached id u).IsLasting) (hsettled : (reached id u).IsSettled) (k : Nat) :
    (reached id u).Tracks k ↔ (reached id u).Waits k := by
  have haccounted : (reached id u).Accounted (messages u) (settlements id u) := h.accounted
  constructor
  · rintro ⟨d, hd⟩
    obtain ⟨n, htag, hmanual⟩ := haccounted.sound.ledger _ _ hd
    obtain rfl := Tag.assigned.inj htag
    rcases haccounted.held hlasting d k hmanual with hwaits | ⟨a, ha, hcovers⟩
    · exact hwaits
    · rcases h.released hwilling hlasting a ha with ⟨call, hasked, _⟩ | hoff
      · exact nomatch (hsettled.asked? call).symm.trans hasked
      · exact absurd ⟨d, hd⟩ (hoff k hcovers)
  · exact haccounted.tracked hlasting.1 k

/-- A call that settles a message carries out a settlement of a waiting delivery, with the message
that waits under its tag and the flags that were asked for. -/
theorem Accounted.settles_of_mem_calls (h : s.Accounted past settled) {c : Client.Call}
    (hc : c ∈ s.calls e) {m : Message} (hm : c.message? = some m) :
    ∃ number d st multiple requeue delivery n,
      e = .issue number (.settle d st multiple requeue) ∧
      s.machine.channel.deliveries[d]? = some delivery ∧ delivery.Awaits n ∧
      (.assigned n, m) ∈ s.adapter.unsettled ∧
      c = Client.settleCall st m (multiple.ifDefined (.bool false))
        (requeue.ifDefined (.bool true)) := by
  have hchange := step_transition s e
  generalize s.step e = s', s.calls e = calls at hchange hc
  cases hchange with
  | @asked call r c' p hasks =>
    cases hasks with
    | operation hp =>
      have hnone := Client.Adapter.message?_of_mem_called (delivery?_of_primitive? hp).2 hc
      exact nomatch hnone.symm.trans hm
    | @settlement _ d n st multiple requeue delivery _ hd hawaits =>
      cases hentry : s.adapter.unsettled.entry? (.assigned n) with
      | none =>
        rw [Client.Adapter.issue_settlePrimitive_of_missing hentry] at hc
        exact nomatch hc
      | some m' =>
        rw [Client.Adapter.issue_settlePrimitive_of_waiting h.assigned hentry] at hc
        obtain rfl := List.mem_singleton.mp hc
        rw [Client.message?_settleCall] at hm
        obtain rfl := Option.some.inj hm
        exact ⟨call, d, st, multiple, requeue, delivery, n, rfl, hd, hawaits,
          TagMap.mem_of_entry?_eq_some hentry, rfl⟩
  | _ => exact nomatch hc

/-- A delivery of a proper run that has to be settled is the message that waits under its tag. -/
theorem Proper.message_eq (h : Proper u) {d n : Nat} {delivery : Delivery} {m : Message}
    (hd : (reached id u).machine.channel.deliveries[d]? = some delivery)
    (hawaits : delivery.Awaits n) (hm : (.assigned n, m) ∈ (reached id u).adapter.unsettled) :
    m ∈ messages u ∧ delivery.message = m.received := by
  have haccounted : (reached id u).Accounted (messages u) (settlements id u) := h.accounted
  have hlabel : (delivery.message, delivery.mode) ∈ (reached id u).machine.channel.labels :=
    List.mem_map_of_mem (List.mem_of_getElem? hd)
  obtain ⟨m', hm', hreceived⟩ := haccounted.delivered _ hlabel
  obtain ⟨hpast, htag, _⟩ := haccounted.kept _ _ hm
  have htag' : m'.tag = .assigned n := by
    have hsame : m'.received.tag = .assigned n := hreceived ▸ hawaits.1
    exact hsame
  obtain rfl := h.eq_of_tag hpast hm' htag.symm htag'
  exact ⟨hpast, hreceived⟩

/-- A channel and its adapter agree on what is outstanding. Whenever the channel is open, no
settlement is in flight and no close that the client has carried out is on its way back to the
channel, the channel's ledger has the same tags as the messages that wait at the adapter. While such
a close is on its way the adapter has let messages go that the ledger still has, so that all that
waits is on the ledger, as it is in every open state; a close that the client has refused makes no
difference. Every settlement that the client gets is one that a caller asked for, with the flags
asked for and with the very message of the delivery; and none names a message that an earlier one
has covered. -/
theorem outstanding_agree (hproper : Proper events) (hwilling : Willing id events) :
    ((reached id events).machine.channel.isOpen = true → (reached id events).IsSettled →
      ¬(reached id events).Ending →
      ∀ t, (∃ d, (t, d) ∈ (reached id events).machine.channel.pending) ↔
        ∃ m, (t, m) ∈ (reached id events).adapter.unsettled) ∧
    ((reached id events).machine.channel.isOpen = true →
      ∀ t m, (t, m) ∈ (reached id events).adapter.unsettled →
        ∃ d, (t, d) ∈ (reached id events).machine.channel.pending) ∧
    (∀ u e v, events = u ++ e :: v → ∀ c ∈ (reached id u).calls e, ∀ m, c.message? = some m →
      ∃ call d st multiple requeue delivery, e = .issue call (.settle d st multiple requeue) ∧
        (reached id u).machine.channel.deliveries[d]? = some delivery ∧
        delivery.mode = .manual ∧ m ∈ messages u ∧ delivery.message = m.received ∧
        c = Client.settleCall st m (multiple.ifDefined (.bool false))
          (requeue.ifDefined (.bool true))) ∧
    (settlements id events).Pairwise fun a b => ¬Covers a.1 a.2 b.1 := by
  have haccounted : (reached id events).Accounted (messages events) (settlements id events) :=
    hproper.accounted
  refine ⟨?_, ?_, ?_, haccounted.once⟩
  · intro hopen hsettled hnotEnding t
    have hiff := hproper.tracks_iff_waits hwilling ⟨hopen, hnotEnding⟩ hsettled
    constructor
    · rintro ⟨d, hd⟩
      obtain ⟨n, rfl, _⟩ := haccounted.sound.ledger _ _ hd
      exact (hiff n).mp ⟨d, hd⟩
    · rintro ⟨m, hm⟩
      obtain ⟨n, rfl⟩ := (haccounted.kept _ _ hm).2.2
      exact (hiff n).mpr ⟨m, hm⟩
  · intro hopen t m hm
    obtain ⟨n, rfl⟩ := (haccounted.kept _ _ hm).2.2
    exact haccounted.tracked hopen n ⟨m, hm⟩
  · rintro u e v rfl c hc m hm
    have hu : Proper u := hproper.of_append_left
    obtain ⟨call, d, st, multiple, requeue, delivery, n, he, hd, hawaits, hmem, hcall⟩ :=
      hu.accounted.settles_of_mem_calls hc hm
    obtain ⟨hpast, hmessage⟩ := hu.message_eq hd hawaits hmem
    exact ⟨call, d, st, multiple, requeue, delivery, he, hd, hawaits.2.1, hpast, hmessage, hcall⟩

/-- The client's reply to a consumer that it starts. -/
def startedReply : Channel.Outcome := .replied (.table [("consumerTag", .text "ctag")])

/-- A manual and an automatic consumer get messages. A settlement of the third message takes the
first one along; while it is in flight a fourth message arrives, and the first one is settled for
itself, which the adapter refuses. -/
def crossing : List Event :=
  [.issue 0 (.consume (.text "jobs") (.table [])), .replied 0 startedReply, .answered 0,
    .issue 1 (.consume (.text "news") (.table [("autoAck", .bool true)])), .replied 1 startedReply,
    .answered 1,
    .handed 0 (Channel.messageOf 1), .handed 1 (Channel.messageOf 2),
    .handed 0 (Channel.messageOf 3),
    .issue 2 (.settle 2 .acknowledge (.bool true) .undefined),
    .handed 0 (Channel.messageOf 4),
    .issue 3 (.settle 0 .reject .undefined .undefined),
    .replied 2 (.replied .undefined), .answered 3, .heard 3, .answered 2, .heard 2]

/-- No close is on its way in a session with nothing left to hear of. -/
theorem not_ending_of_outcomes (hnone : s.outcomes = []) : ¬s.Ending := by
  rintro ⟨call, reply, hmem, _⟩
  rw [hnone] at hmem
  exact nomatch hmem

/-- In that run the fourth message alone is outstanding in the end, on both sides, and the client
got one settlement. -/
theorem outstanding_agree_crossing :
    Proper crossing ∧ Willing "c" crossing ∧
      (reached "c" crossing).machine.channel.isOpen = true ∧
      (reached "c" crossing).IsSettled ∧ ¬(reached "c" crossing).Ending ∧
      (reached "c" crossing).Tracks 4 ∧ ¬(reached "c" crossing).Tracks 1 ∧
      settlements "c" crossing = [(3, true)] := by
  have hmessages : messages crossing = [1, 2, 3, 4].map Channel.messageOf := rfl
  have hunsettled : (reached "c" crossing).adapter.unsettled =
      [(.assigned 4, Channel.messageOf 4)] := rfl
  have hproper : Proper crossing := by
    refine ⟨by decide, by decide, ?_, by decide⟩
    intro m hm
    rw [hmessages] at hm
    obtain ⟨n, _, rfl⟩ := List.mem_map.mp hm
    exact ⟨n, rfl⟩
  have hwilling : Willing "c" crossing := by
    rintro u _ v he call thrown rfl
    have hmem : Event.replied call (.threw thrown) ∈ crossing := by simp [he]
    simp [crossing, startedReply] at hmem
  have hopen : (reached "c" crossing).machine.channel.isOpen = true := rfl
  have hnotEnding : ¬(reached "c" crossing).Ending := not_ending_of_outcomes rfl
  have hsettled : (reached "c" crossing).IsSettled := by
    have hnone : (reached "c" crossing).machine.calls = [] := rfl
    rw [IsSettled, hnone]
    exact List.forall_mem_nil _
  have hagree := (outstanding_agree hproper hwilling).1 hopen hsettled hnotEnding
  refine ⟨hproper, hwilling, hopen, hsettled, hnotEnding, (hagree _).mpr ?_,
    mt (hagree _).mp ?_, rfl⟩
  · rw [hunsettled]
    exact ⟨_, List.mem_singleton_self _⟩
  · rw [hunsettled]
    rintro ⟨m, hm⟩
    exact nomatch List.mem_singleton.mp hm

/-- A message waits for its settlement when the client carries out a close, and the channel has not
heard of that yet. -/
def closingDown : List Event :=
  [.issue 0 (.consume (.text "jobs") (.table [])), .replied 0 startedReply, .answered 0,
    .handed 0 (Channel.messageOf 1), .issue 1 (.close .undefined), .replied 1 (.replied .undefined)]

/-- Without the exception for a close that is on its way the two parts need not agree: the channel
is open and no settlement is in flight, the adapter has let the message go, and the channel's ledger
still has its tag. -/
theorem exists_outstanding_disagree :
    ¬∀ (id : String) (events : List Event), Proper events → Willing id events →
      (reached id events).machine.channel.isOpen = true → (reached id events).IsSettled →
      ∀ t, (∃ d, (t, d) ∈ (reached id events).machine.channel.pending) ↔
        ∃ m, (t, m) ∈ (reached id events).adapter.unsettled := by
  intro h
  have hmessages : messages closingDown = [Channel.messageOf 1] := rfl
  have hproper : Proper closingDown := by
    refine ⟨by decide, by decide, ?_, by decide⟩
    intro m hm
    rw [hmessages] at hm
    rw [List.mem_singleton.mp hm]
    exact ⟨1, rfl⟩
  have hwilling : Willing "c" closingDown := by
    rintro u _ v he call thrown rfl
    have hmem : Event.replied call (.threw thrown) ∈ closingDown := by simp [he]
    simp [closingDown, startedReply] at hmem
  have hsettled : (reached "c" closingDown).IsSettled := by
    have hnone : (reached "c" closingDown).machine.calls.map (·.request.delivery?) = [none] := rfl
    intro c hc
    exact List.mem_singleton.mp (hnone ▸ List.mem_map_of_mem hc)
  have hpending : (reached "c" closingDown).machine.channel.pending = [(.assigned 1, 0)] := rfl
  have hunsettled : (reached "c" closingDown).adapter.unsettled = [] := rfl
  have hagree := h "c" closingDown hproper hwilling rfl hsettled (.assigned 1)
  rw [hpending, hunsettled] at hagree
  obtain ⟨m, hm⟩ := hagree.mp ⟨0, List.mem_singleton_self _⟩
  exact List.not_mem_nil hm

end Session

end Amqp
