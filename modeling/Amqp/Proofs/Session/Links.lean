import Amqp.Proofs.Channel.Calm
import Amqp.Proofs.Channel.Closing
import Amqp.Proofs.Client.Properties
import Amqp.Proofs.Session.System

/-!
# How the two parts of a session hang together

Whatever waits at the adapter waits on behalf of one call of the channel, which waits for it in
turn. The consumers of the adapter are those that the channel asked for, with the same modes, and
the adapter of an open channel is not detached.
-/

namespace Amqp

/-- The message as the adapter hands it on: with those of its properties that are known. -/
def Message.received (m : Message) : Message :=
  { m with properties := (Properties.ofValue m.properties).toValue }

namespace Session

open Channel (Machine)

/-- The call is carried out by the primitive. -/
def Carries (c : Channel.Call) (p : Channel.Primitive) : Prop :=
  c.IsAsked ∧ (c.request.primitive? = some p ∨ ∃ d st multiple requeue,
    c.request = .settle d st multiple requeue ∧
      p = Channel.Request.settlePrimitive st c.tag multiple requeue)

/-- What ties the adapter's primitives to the channel's calls. -/
structure Linked (s : Session) : Prop where
  unique : s.machine.UniqueIds
  /-- A primitive that waits for the client carries out a call. -/
  carried : ∀ p ∈ s.adapter.pending, ∃ c, s.machine.call? p.id = some c ∧ Carries c p.primitive
  /-- What a primitive came to is waited for by a call. -/
  awaited : ∀ o ∈ s.outcomes, ∃ c, s.machine.call? o.1 = some c ∧ c.IsAsked
  /-- A call has one primitive, which either waits or has come to something. -/
  apart : (s.adapter.pending.map (·.id) ++ s.outcomes.map (·.1)).Nodup
  modes : s.subscriptions.map (·.mode) = s.adapter.modes
  attached : s.machine.channel.isOpen = true → s.adapter.detached = false

/-- A request of the session comes under a number that no call in flight has. -/
def Event.NewFor (e : Event) (s : Session) : Prop :=
  ∀ call, e.issued? = some call → ∀ c ∈ s.machine.calls, c.id ≠ call

variable {s : Session} {e : Event} {call : Nat}

/-- What is new for a session is new for its channel. -/
theorem Event.NewFor.issue {r : Channel.Request} (h : (Event.issue call r).NewFor s) :
    (Channel.Event.issue call r).NewFor s.machine :=
  fun call' hcall' => h call' hcall'

/-- A new request leaves the accounts of the channel as they are. -/
theorem Event.NewFor.calm {r : Channel.Request} (h : (Event.issue call r).NewFor s) :
    Machine.Calm (some call) s.machine (s.machine.step (.issue call r)).1 :=
  Machine.calm_step h.issue rfl (by nofun)

/-- A session that has just been opened hangs together. -/
theorem linked_opened (id : String) : (opened id).Linked where
  unique := List.nodup_nil
  carried _ hp := nomatch hp
  awaited _ ho := nomatch ho
  apart := List.nodup_nil
  modes := rfl
  attached _ := rfl

/-- What is asked for on behalf of a call carries it out. -/
theorem carries_of_asks {m : Machine} {e : Channel.Event} {c : Channel.Call}
    {p : Channel.Primitive} (h : Channel.Asks m e c p) : Carries c p := by
  cases h with
  | operation hp => exact ⟨⟨_, rfl⟩, .inl hp⟩
  | @settlement call d n st multiple requeue delivery hopen =>
    have hphase : (m.settleCall call d st multiple requeue n).phase = .asked true := by
      simp [Machine.settleCall, hopen]
    exact ⟨⟨true, hphase⟩, .inr ⟨d, st, _, _, rfl, rfl⟩⟩

/-- A settlement is never passed on as it is. -/
theorem delivery?_of_primitive? {r : Channel.Request} {p : Channel.Primitive}
    (h : r.primitive? = some p) : r.delivery? = none ∧ ¬p.IsSettlement := by
  cases r with
  | settle => exact nomatch h
  | _ =>
    obtain rfl := Option.some.inj h
    exact ⟨rfl, fun h => h⟩

/-- A call in flight that settles a tag is carried out by a primitive that settles the tag. -/
theorem Carries.settles?_iff {m : Machine} {c : Channel.Call} {p : Channel.Primitive}
    (h : Carries c p) (hcall : m.call? call = some c) {a : Nat × Bool} :
    m.asked? call = some a ↔ p.settles? = some a := by
  obtain ⟨⟨wasOpen, hphase⟩, hoperation | ⟨d, st, multiple, requeue, hrequest, rfl⟩⟩ := h
  · obtain ⟨hnone, hp⟩ := delivery?_of_primitive? hoperation
    have hsettles : p.settles? = none := by
      cases p with
      | basicAck | basicNack => exact absurd trivial hp
      | _ => rfl
    rw [hsettles]
    constructor
    · intro hasked
      obtain ⟨c', d, st, multiple, requeue, wasOpen', hcall', hrequest, _⟩ :=
        Machine.asked?_eq_some_iff.mp hasked
      obtain rfl := Option.some.inj (hcall.symm.trans hcall')
      exact nomatch (Channel.Request.delivery?_of_settle hrequest).symm.trans hnone
    · exact fun h => nomatch h
  · have hasked : m.asked? call = some (c.tag, multiple.isTruthy) :=
      Machine.asked?_eq_some_iff.mpr
        ⟨c, d, st, multiple, requeue, wasOpen, hcall, hrequest, hphase, rfl, rfl⟩
    rw [hasked, Channel.Request.settles?_settlePrimitive]

/-- A call that is carried out by a close is a close. -/
theorem Carries.isClosing {m : Machine} {c : Channel.Call} {params : Option Value}
    (h : Carries c (.close params)) (hcall : m.call? call = some c) : m.IsClosing call := by
  obtain ⟨⟨wasOpen, hphase⟩, hoperation | ⟨d, st, multiple, requeue, _, hp⟩⟩ := h
  · refine ⟨c, wasOpen, hcall, ?_, hphase⟩
    cases hrequest : c.request with
    | close => rfl
    | _ =>
      rw [hrequest] at hoperation
      exact nomatch hoperation
  · cases st <;> exact nomatch hp

/-- Whether a consumer settles its deliveries is passed on with its options. -/
theorem askedModes_of_asks {m : Machine} {r : Channel.Request} {c : Channel.Call}
    {p : Channel.Primitive} (h : Channel.Asks m (.issue call r) c p) :
    (Event.issue call r).subscription?.toList.map (·.mode) = Client.Adapter.askedModes p ∧
      ∀ queue options, p = .basicConsume queue options →
        ∃ tag, options.read "consumerTag" = .ok tag := by
  cases h with
  | operation hp =>
    cases r with
    | settle => cases hp
    | consume queue options =>
      obtain rfl := Option.some.inj hp
      refine ⟨?_, ?_⟩
      · have hmode : ((Channel.consumeOptions options).field "noAck") =
            .bool (Channel.ackModeOf options == .auto) := rfl
        simp only [Event.subscription?, Option.toList_some, List.map_singleton,
          Client.Adapter.askedModes, hmode]
        cases Channel.ackModeOf options <;> rfl
      · rintro _ _ ⟨⟩
        exact ⟨_, rfl⟩
    | _ =>
      obtain rfl := Option.some.inj hp
      exact ⟨rfl, by rintro _ _ ⟨⟩⟩
  | @settlement _ _ _ st => cases st <;> exact ⟨rfl, by rintro _ _ ⟨⟩⟩

/-- An abort closes the channel at once. -/
theorem isOpen_of_asks_abort {m : Machine} {r : Channel.Request} {c : Channel.Call}
    {p : Channel.Primitive} (h : Channel.Asks m (.issue call r) c p) (habort : p.IsAbort) :
    (m.step (.issue call r)).1.channel.isOpen = false := by
  cases h with
  | operation hp =>
    cases r with
    | abort params => rfl
    | settle => exact nomatch hp
    | _ =>
      obtain rfl := Option.some.inj hp
      exact habort.elim
  | @settlement _ _ _ st => cases st <;> exact habort.elim

namespace Linked

/-- The calls that have something waiting at the adapter, or an outcome, are in flight. -/
theorem exists_call (h : s.Linked)
    (hmem : call ∈ s.adapter.pending.map (·.id) ++ s.outcomes.map (·.1)) :
    ∃ c, s.machine.call? call = some c ∧ c.IsAsked := by
  rcases List.mem_append.mp hmem with hmem | hmem
  · obtain ⟨p, hp, rfl⟩ := List.mem_map.mp hmem
    obtain ⟨c, hcall, hcarries⟩ := h.carried p hp
    exact ⟨c, hcall, hcarries.1⟩
  · obtain ⟨o, ho, rfl⟩ := List.mem_map.mp hmem
    exact h.awaited o ho

/-- A new call has nothing waiting at the adapter. -/
theorem notMem_of_new (h : s.Linked) (hnew : e.NewFor s) (hissued : e.issued? = some call) :
    call ∉ s.adapter.pending.map (·.id) ++ s.outcomes.map (·.1) := by
  intro hmem
  obtain ⟨c, hcall, _⟩ := h.exists_call hmem
  obtain ⟨hc, hid⟩ := Machine.mem_of_call? hcall
  exact hnew call hissued c hc hid

/-- The outcome that waits for a call is its only one, and its primitive waits no more. -/
theorem eq_of_mem (h : s.Linked) {o o' : Channel.Outcome} (ho : (call, o) ∈ s.outcomes)
    (ho' : (call, o') ∈ s.outcomes) : o = o' := by
  have heq := List.inj_on_of_nodup_map h.apart.of_append_right ho ho' rfl
  exact congrArg Prod.snd heq

theorem notMem_pending (h : s.Linked) {o : Channel.Outcome} (ho : (call, o) ∈ s.outcomes)
    {p : Client.Pending} (hp : p ∈ s.adapter.pending) : p.id ≠ call := by
  rintro rfl
  exact List.disjoint_of_nodup_append h.apart (List.mem_map_of_mem hp)
    (List.mem_map_of_mem ho)

/-- The parts of a session hang together as before where no call ends that waits, and the adapter
keeps what it has. -/
theorem of_calls (h : s.Linked) {m : Machine} {a : Client.Adapter} (hunique : m.UniqueIds)
    (hcalls : ∀ call c, s.machine.call? call = some c → c.IsAsked → m.call? call = some c)
    (hopen : m.channel.isOpen = true → s.machine.channel.isOpen = true)
    (hpending : a.pending = s.adapter.pending) (hmodes : a.modes = s.adapter.modes)
    (hdetached : a.detached = s.adapter.detached) :
    ({ s with machine := m, adapter := a } : Session).Linked where
  unique := hunique
  carried := by
    intro p hp
    obtain ⟨c, hcall, hcarries⟩ := h.carried p (hpending ▸ hp)
    exact ⟨c, hcalls p.id c hcall hcarries.1, hcarries⟩
  awaited := by
    intro o ho
    obtain ⟨c, hcall, hasked⟩ := h.awaited o ho
    exact ⟨c, hcalls o.1 c hcall hasked, hasked⟩
  apart := by
    simp only [hpending]
    exact h.apart
  modes := h.modes.trans hmodes.symm
  attached := fun hm => hdetached.trans (h.attached (hopen hm))

/-- The channel asks the adapter for a primitive on behalf of a new call. -/
theorem step_asked (h : s.Linked) {r : Channel.Request} {c : Channel.Call}
    {p : Channel.Primitive} (hnew : (Event.issue call r).NewFor s)
    (hasks : Channel.Asks s.machine (.issue call r) c p) (hid : c.id = call)
    (hcalls : (s.machine.step (.issue call r)).1.calls = s.machine.calls ++ [c]) :
    Linked
      { machine := (s.machine.step (.issue call r)).1
        adapter := (s.adapter.issue call p).1
        subscriptions := s.subscriptions ++ (Event.issue call r).subscription?.toList
        outcomes := s.outcomes ++ Client.ended (s.adapter.issue call p).2 } := by
  have hunique := h.unique.step hnew.issue
  have hcall : (s.machine.step (.issue call r)).1.call? call = some c := by
    rw [hunique.call?_eq_some_iff, hcalls]
    exact ⟨List.mem_append_right _ (List.mem_singleton_self c), hid⟩
  have hcarries := carries_of_asks hasks
  have hfresh := h.notMem_of_new hnew rfl
  obtain ⟨hmodes, hread⟩ := askedModes_of_asks hasks
  have hissued := Client.Adapter.issued_issue s.adapter call p
  refine ⟨hunique, ?_, ?_, ?_, ?_, ?_⟩
  · intro p' hp'
    rcases hissued.mem_pending hp' with hp' | ⟨hid', hprimitive⟩
    · obtain ⟨c', hcall', hcarries'⟩ := h.carried p' hp'
      exact ⟨c', hnew.calm.call? _ _ hcall' hcarries'.1, hcarries'⟩
    · rw [hid', hprimitive]
      exact ⟨c, hcall, hcarries⟩
  · intro o ho
    rcases List.mem_append.mp ho with ho | ho
    · obtain ⟨c', hcall', hasked⟩ := h.awaited o ho
      exact ⟨c', hnew.calm.call? _ _ hcall' hasked, hasked⟩
    · obtain ⟨thrown, rfl⟩ := hissued.mem_ended ho
      exact ⟨c, hcall, hcarries.1⟩
  · have hcons := List.nodup_cons.mpr ⟨hfresh, h.apart⟩
    cases hissued with
    | passed consumer _ hpending _ hended =>
      simp only [hpending, hended, List.map_append, List.map_cons, List.map_nil, List.append_nil,
        List.append_assoc, List.singleton_append]
      exact (List.perm_middle.nodup_iff).mpr hcons
    | refused thrown hpending _ hended =>
      simp only [hpending, hended, List.map_append, List.map_cons, List.map_nil]
      rw [← List.append_assoc]
      exact (List.perm_append_singleton _ _).nodup_iff.mpr hcons
  · rw [List.map_append, hmodes, h.modes, Client.Adapter.modes_issue hread]
  · intro hopen
    have habort : ¬p.IsAbort := fun habort =>
      nomatch hopen.symm.trans (isOpen_of_asks_abort hasks habort)
    rw [Client.Adapter.detached_issue habort]
    exact h.attached (hnew.calm.opened hopen)

/-- The client answers a primitive that waits: what it came to waits in its place. -/
theorem step_replied (h : s.Linked) {o : Channel.Outcome} {p : Client.Pending}
    (hp : s.adapter.pending.find? (·.id == call) = some p) :
    Linked
      { s with
        adapter := ({ s.adapter with
          pending := s.adapter.pending.filter (·.id != call) }.answer p o).1
        outcomes := s.outcomes ++ [(call, Client.Adapter.conclusion p o)] } := by
  obtain ⟨hmem, hid⟩ : p ∈ s.adapter.pending ∧ p.id = call :=
    ⟨List.mem_of_find?_eq_some hp, by simpa using List.find?_some hp⟩
  have hanswer := Client.Adapter.answered_answer
    { s.adapter with pending := s.adapter.pending.filter (·.id != call) } p o
  refine ⟨h.unique, ?_, ?_, ?_, ?_, ?_⟩
  · intro p' hp'
    rw [hanswer.pending] at hp'
    exact h.carried p' (List.mem_filter.mp hp').1
  · intro o' ho'
    rcases List.mem_append.mp ho' with ho' | ho'
    · exact h.awaited o' ho'
    · rw [List.mem_singleton.mp ho', ← hid]
      obtain ⟨c, hcall, hcarries⟩ := h.carried p hmem
      exact ⟨c, hcall, hcarries.1⟩
  · have hpending := hanswer.pending
    simp only [hpending, List.map_append, List.map_cons, List.map_nil]
    rw [← List.append_assoc, (List.perm_append_singleton _ _).nodup_iff, List.nodup_cons]
    constructor
    · intro hcall
      rcases List.mem_append.mp hcall with hcall | hcall
      · obtain ⟨p', hp', hid'⟩ := List.mem_map.mp hcall
        simpa [hid'] using (List.mem_filter.mp hp').2
      · refine List.disjoint_of_nodup_append h.apart ?_ hcall
        exact hid ▸ List.mem_map_of_mem hmem
    · exact (List.filter_sublist.map _ |>.append (List.Sublist.refl _)).nodup h.apart
  · exact h.modes.trans hanswer.modes.symm
  · exact fun hopen => hanswer.detached.trans (h.attached hopen)

/-- The channel hears what the primitive of a call came to. -/
theorem step_answered (h : s.Linked) {o : Channel.Outcome} (ho : (call, o) ∈ s.outcomes) :
    Linked
      { s with
        machine := (s.machine.step (.answered call o)).1
        outcomes := s.outcomes.filter (·.1 != call) } := by
  have hother {call' : Nat} (hne : call' ≠ call) :
      (s.machine.step (.answered call o)).1.call? call' = s.machine.call? call' :=
    Machine.call?_step_of_ne fun he => hne (Option.some.inj he).symm
  refine ⟨h.unique.step (fun _ he => nomatch he), ?_, ?_, ?_, h.modes, ?_⟩
  · intro p hp
    rw [hother (h.notMem_pending ho hp)]
    exact h.carried p hp
  · intro o' ho'
    obtain ⟨ho', hne⟩ := List.mem_filter.mp ho'
    rw [hother (by simpa using hne)]
    exact h.awaited o' ho'
  · exact ((List.Sublist.refl _).append (List.filter_sublist.map _)).nodup h.apart
  · intro hopen
    refine h.attached ?_
    rw [Machine.isOpen_step_iff] at hopen
    exact hopen.1

end Linked

/-- A message that a consumer gets reaches the channel, with the mode of the consumer. -/
theorem Linked.news_hand (h : s.Linked) {consumer : Nat} {message : Message} {c : Client.Consumer}
    (hc : s.adapter.consumers[consumer]? = some c) (hdetached : s.adapter.detached = false)
    (hgiven : message.properties.isGiven = true) :
    ∃ number, (s.adapter.hand consumer message).2.filterMap s.news? =
      [.arrived number c.mode message.received] := by
  have hmode : (s.subscriptions.map (·.mode))[consumer]? = some c.mode := by
    rw [h.modes, Client.Adapter.modes, List.getElem?_map, hc, Option.map_some]
  rw [List.getElem?_map] at hmode
  obtain ⟨sub, hsub, hmode⟩ := Option.map_eq_some_iff.mp hmode
  refine ⟨sub.call, ?_⟩
  simp [Client.Adapter.hand, hc, hdetached, Properties.incoming_of_isGiven hgiven, news?, hsub,
    hmode, Message.received]

/-- What a consumer gets changes at the adapter only which messages wait. -/
theorem hand_fst (a : Client.Adapter) (consumer : Nat) (message : Message) :
    (a.hand consumer message).1 =
      { a with unsettled := (a.hand consumer message).1.unsettled } := by
  unfold Client.Adapter.hand
  split
  · rfl
  · split <;> rfl

/-- What happens aside issues nothing, brings no message and answers nothing. -/
theorem IsAside.accounts {f : Channel.Event} (h : IsAside f) :
    f.issued? = none ∧ f.label? = none ∧ ∀ call o, f ≠ .answered call o := by
  cases f with
  | issue | answered | arrived => exact h.elim
  | _ => exact ⟨rfl, rfl, fun _ _ he => nomatch he⟩

/-- What happens aside leaves the accounts of the channel as they are. -/
theorem calm_run {m : Machine} {events : List Channel.Event} (h : ∀ f ∈ events, IsAside f) :
    Machine.Calm none m (m.run events).1 := by
  induction events generalizing m with
  | nil => exact .refl m
  | cons f events ih =>
    obtain ⟨hf, hrest⟩ := List.forall_mem_cons.mp h
    obtain ⟨hissued, hlabel, hanswer⟩ := hf.accounts
    have hstep := Machine.calm_step (m := m) (fun _ he => nomatch hissued.symm.trans he) hlabel
      hanswer
    rw [hissued] at hstep
    exact hstep.trans (ih hrest)

/-- No call is issued aside. -/
theorem uniqueIds_run {m : Machine} (hunique : m.UniqueIds) {events : List Channel.Event}
    (h : ∀ f ∈ events, f.issued? = none) : (m.run events).1.UniqueIds := by
  induction events generalizing m with
  | nil => exact hunique
  | cons f events ih =>
    obtain ⟨hf, hrest⟩ := List.forall_mem_cons.mp h
    exact ih (hunique.step fun call he => nomatch hf.symm.trans he) hrest

/-- The channel is told of a request only if the event issues it. -/
theorem issued?_of_mem_told {f : Channel.Event} (hf : f ∈ s.told e)
    (hissued : f.issued? = some call) : e.issued? = some call := by
  rcases List.mem_append.mp hf with hf | hf
  · cases e with
    | issue call' r =>
      obtain rfl := List.mem_singleton.mp hf
      exact hissued
    | answered call' =>
      simp only [own, Option.mem_toList, Option.map_eq_some_iff] at hf
      obtain ⟨o, _, rfl⟩ := hf
      cases hissued
    | heard | turn | handlerFailed =>
      obtain rfl := List.mem_singleton.mp hf
      cases hissued
    | _ => cases hf
  · obtain ⟨g, _, hnews⟩ := List.mem_filterMap.mp hf
    cases g with
    | deliver | cancelled =>
      obtain ⟨sub, _, rfl⟩ := Option.map_eq_some_iff.mp hnews
      cases hissued
    | lost =>
      obtain rfl := Option.some.inj hnews
      cases hissued
    | _ => cases hnews

/-- A call in flight after a run of the channel was in flight before, or is issued in the run. -/
theorem mem_calls_run {m : Machine} {events : List Channel.Event} {c : Channel.Call}
    (hc : c ∈ (m.run events).1.calls) :
    (∃ c₀ ∈ m.calls, c₀.id = c.id) ∨ ∃ f ∈ events, f.issued? = some c.id := by
  induction events generalizing m with
  | nil => exact .inl ⟨c, hc, rfl⟩
  | cons f events ih =>
    rcases ih hc with ⟨c₁, hc₁, hid₁⟩ | ⟨g, hg, hissued⟩
    · rcases Machine.origin_step hc₁ with ⟨c₀, hc₀, hid₀, _⟩ | ⟨hissued, _⟩ |
        ⟨_, _, _, _, _, _, rfl, _⟩
      · exact .inl ⟨c₀, hc₀, hid₀.trans hid₁⟩
      · exact .inr ⟨f, List.mem_cons_self .., hid₁ ▸ hissued⟩
      · exact .inr ⟨_, List.mem_cons_self .., congrArg some hid₁⟩
    · exact .inr ⟨g, List.mem_cons_of_mem _ hg, hissued⟩

/-- The calls in flight in a session are those that were issued. -/
theorem issued_of_mem_calls {id : String} {u : List Event} {c : Channel.Call}
    (hc : c ∈ (reached id u).machine.calls) : c.id ∈ u.filterMap Event.issued? := by
  induction u using List.reverseRecOn generalizing c with
  | nil => exact nomatch hc
  | append_singleton u e ih =>
    rw [reached_concat] at hc
    rw [List.filterMap_append, List.mem_append]
    rcases mem_calls_run hc with ⟨c₀, hc₀, hid⟩ | ⟨f, hf, hissued⟩
    · exact .inl (hid ▸ ih hc₀)
    · exact .inr (List.mem_filterMap.mpr
        ⟨e, List.mem_singleton_self e, issued?_of_mem_told hf hissued⟩)

/-- The messages that the client hands over have properties. -/
def Event.IsFormed (e : Event) : Prop :=
  ∀ message, e.message? = some message → message.properties.isGiven = true

/-- The parts of a session hang together after every step under a new number. -/
theorem Linked.step (h : s.Linked) (hnew : e.NewFor s) (hformed : e.IsFormed) :
    (s.step e).Linked := by
  have hchange := step_transition s e
  generalize s.step e = s', s.calls e = calls at hchange
  cases hchange with
  | kept =>
    exact h.of_calls (h.unique.step hnew.issue) hnew.calm.call? hnew.calm.opened rfl rfl rfl
  | asked hasks hid hcalls => exact h.step_asked hnew hasks hid hcalls
  | replied hp => exact h.step_replied hp
  | answered ho => exact h.step_answered ho
  | @handed consumer message c hc hdetached =>
    obtain ⟨number, hnews⟩ := h.news_hand hc hdetached (hformed message rfl)
    rw [hnews, machine_run_singleton, hand_fst]
    refine h.of_calls (h.unique.step (by nofun)) ?_ ?_ rfl rfl rfl
    · intro call c hcall _
      rw [Machine.call?_step_of_ne (by nofun), hcall]
    · exact fun hopen => (Machine.isOpen_step_iff.mp hopen).1
  | @aside _ events tags listeners hevents =>
    have hissued : ∀ f ∈ events, f.issued? = none := fun f hf => (hevents f hf).accounts.1
    have hcalm := calm_run (m := s.machine) hevents
    exact h.of_calls (uniqueIds_run h.unique hissued) hcalm.call? hcalm.opened rfl rfl rfl

end Session

end Amqp
