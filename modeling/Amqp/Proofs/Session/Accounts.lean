import Amqp.Proofs.Session.Links

/-!
# What the two parts of a session keep account of

The channel keeps account of the deliveries that wait for a settlement, and the adapter of the
messages. The two are brought up to date at different moments: the adapter when the client is asked,
the channel when it hears of the answer. What holds at every moment is stated about the messages
handed over so far and the settlements that the client got: a message waits at the adapter exactly
until the client gets a settlement that covers it.
-/

namespace Amqp

namespace Session

open Channel (Machine)

/-- A message waits at the adapter under that tag. -/
def Waits (s : Session) (k : Nat) : Prop := ∃ m, (Tag.assigned k, m) ∈ s.adapter.unsettled

/-- A delivery is on the channel's ledger under that tag. -/
def Tracks (s : Session) (k : Nat) : Prop := ∃ d, (Tag.assigned k, d) ∈ s.machine.channel.pending

/-- The client has got the call's primitive, and has not refused it; the channel has not heard of an
answer. -/
def Granted (s : Session) (call : Nat) : Prop :=
  (∃ p ∈ s.adapter.pending, p.id = call) ∨ ∃ reply, (call, .replied reply) ∈ s.outcomes

/-- The client has closed its channel, and the channel above has not heard of it. -/
def Ending (s : Session) : Prop :=
  ∃ call reply, (call, .replied reply) ∈ s.outcomes ∧ s.machine.IsClosing call

/-- The channel is open, and no close that the client has carried out is on its way back to it. -/
def IsLasting (s : Session) : Prop := s.machine.channel.isOpen = true ∧ ¬s.Ending

/-- Some settlement, by its tag and whether it takes the smaller ones along, covers the tag. -/
def Covered (settled : List (Nat × Bool)) (k : Nat) : Prop := ∃ a ∈ settled, Covers a.1 a.2 k

/-- What a session keeps account of, after the messages `past` were handed over and the client got
the settlements `settled`. -/
structure Accounted (s : Session) (past : List Message) (settled : List (Nat × Bool)) : Prop where
  sound : s.machine.Sound
  /-- What waits at the adapter is a message that was handed over. -/
  kept : ∀ t m, (t, m) ∈ s.adapter.unsettled → m ∈ past ∧ t = m.tag ∧ ∃ n, t = .assigned n
  /-- The channel's deliveries are messages that were handed over. -/
  delivered : ∀ l ∈ s.machine.channel.labels, ∃ m ∈ past, l.1 = m.received
  /-- Only the tags of messages are settled. -/
  known : ∀ a ∈ settled, ∃ m ∈ past, m.tag = .assigned a.1
  /-- Nothing waits that a settlement has covered. -/
  taken : ∀ k, s.Waits k → ¬Covered settled k
  /-- What waits at the adapter waits at the channel. -/
  tracked : s.machine.channel.isOpen = true → ∀ k, s.Waits k → s.Tracks k
  /-- What has to be settled waits at the adapter until a settlement covers it. -/
  held : s.IsLasting → ∀ d k, s.machine.channel.Manual d k → s.Waits k ∨ Covered settled k
  /-- A settlement that the channel takes to be in flight is one that the client got. -/
  granted : ∀ call a, s.machine.asked? call = some a → s.Granted call → a ∈ settled
  /-- No tag is settled that an earlier settlement has covered. -/
  once : settled.Pairwise fun a b => ¬Covers a.1 a.2 b.1

/-- The message that is handed over next comes under an assigned tag, larger than all before. -/
def Event.NextAfter (e : Event) (past : List Message) : Prop :=
  ∀ message, e.message? = some message →
    ∃ n, message.tag = .assigned n ∧ ∀ m ∈ past, ∀ k, m.tag = .assigned k → k < n

variable {s s' : Session} {e : Event} {past : List Message} {settled : List (Nat × Bool)}
  {call k n : Nat}

/-- A session that has just been opened keeps account of nothing. -/
theorem accounted_opened (id : String) : (opened id).Accounted [] [] where
  sound := Channel.sound_opened id
  kept _ _ h := nomatch h
  delivered _ h := nomatch h
  known _ h := nomatch h
  taken _ h := nomatch h.choose_spec
  tracked _ _ h := nomatch h.choose_spec
  held := by
    rintro _ d k ⟨message, h, _⟩
    exact nomatch h
  granted := by
    intro call a h
    exact nomatch h
  once := List.Pairwise.nil

/-- A new call has not been granted. -/
theorem Linked.not_granted (h : s.Linked) (hnew : e.NewFor s) (hissued : e.issued? = some call) :
    ¬s.Granted call := by
  intro hgranted
  refine h.notMem_of_new hnew hissued ?_
  rcases hgranted with ⟨p, hp, hid⟩ | ⟨reply, ho⟩
  · exact List.mem_append_left _ (hid ▸ List.mem_map_of_mem hp)
  · exact List.mem_append_right _ (List.mem_map_of_mem (f := (·.1)) ho)

/-- What is granted is not what is issued. -/
theorem Linked.ne_of_granted (h : s.Linked) (hnew : e.NewFor s) {new : Nat}
    (hissued : e.issued? = some new) (hgranted : s.Granted call) : some new ≠ some call := by
  rintro ⟨⟩
  exact h.not_granted hnew hissued hgranted

/-- A close in flight stays so as long as the calls that wait go on waiting. -/
theorem isClosing_of_calls {m m' : Machine}
    (hcalls : ∀ call c, m.call? call = some c → c.IsAsked → m'.call? call = some c)
    (h : m.IsClosing call) : m'.IsClosing call := by
  obtain ⟨c, wasOpen, hcall, hclose, hphase⟩ := h
  exact ⟨c, wasOpen, hcalls call c hcall ⟨wasOpen, hphase⟩, hclose, hphase⟩

/-- A session whose channel the client has closed stays so, until its channel is closed. -/
theorem Ending.step (h : s.Ending) (hlinked : s.Linked) (hnew : e.NewFor s)
    (hformed : e.IsFormed) (hopen : (s.step e).machine.channel.isOpen = true) :
    (s.step e).Ending := by
  obtain ⟨call, reply, hmem, hclosing⟩ := h
  have hchange := step_transition s e
  generalize s.step e = s', s.calls e = calls at hchange hopen
  cases hchange with
  | kept => exact ⟨call, reply, hmem, isClosing_of_calls hnew.calm.call? hclosing⟩
  | asked =>
    exact ⟨call, reply, List.mem_append_left _ hmem, isClosing_of_calls hnew.calm.call? hclosing⟩
  | replied => exact ⟨call, reply, List.mem_append_left _ hmem, hclosing⟩
  | @answered call' o ho =>
    by_cases hne : call = call'
    · subst hne
      obtain rfl := hlinked.eq_of_mem hmem ho
      have hclosed := Machine.isOpen_step_of_closes (m := s.machine)
        (e := .answered call (.replied reply)) hclosing
      exact nomatch hopen.symm.trans hclosed
    · refine ⟨call, reply, List.mem_filter.mpr ⟨hmem, by simpa using hne⟩, ?_⟩
      obtain ⟨c, wasOpen, hcall, hclose, hphase⟩ := hclosing
      refine ⟨c, wasOpen, ?_, hclose, hphase⟩
      have habout : (Channel.Event.answered call' o).call? ≠ some call := fun he =>
        hne (Option.some.inj he).symm
      rw [Machine.call?_step_of_ne habout, hcall]
  | @handed consumer message c hc hdetached =>
    obtain ⟨number, hnews⟩ := hlinked.news_hand hc hdetached (hformed message rfl)
    rw [hnews, machine_run_singleton]
    obtain ⟨c, wasOpen, hcall, hclose, hphase⟩ := hclosing
    exact ⟨call, reply, hmem, c, wasOpen, by rw [Machine.call?_step_of_ne (by nofun), hcall],
      hclose, hphase⟩
  | aside hevents =>
    exact ⟨call, reply, hmem, isClosing_of_calls (calm_run hevents).call? hclosing⟩

/-- A session that lasts after a step did so before. -/
theorem isLasting_of_step (hlinked : s.Linked) (hnew : e.NewFor s) (hformed : e.IsFormed)
    (hlasting : (s.step e).IsLasting) : s.IsLasting := by
  refine ⟨?_, fun hending => hlasting.2 (hending.step hlinked hnew hformed hlasting.1)⟩
  have hopen := hlasting.1
  have hchange := step_transition s e
  generalize s.step e = s', s.calls e = calls at hchange hopen
  cases hchange with
  | kept | asked | answered => exact (Machine.isOpen_step_iff.mp hopen).1
  | replied => exact hopen
  | @handed consumer message c hc hdetached =>
    obtain ⟨number, hnews⟩ := hlinked.news_hand hc hdetached (hformed message rfl)
    rw [hnews, machine_run_singleton] at hopen
    exact (Machine.isOpen_step_iff.mp hopen).1
  | aside hevents => exact (calm_run hevents).opened hopen

namespace Accounted

/-- A tag that is settled is that of a message handed over, so the next message comes under another,
larger one. -/
theorem not_covered_of_next (h : s.Accounted past settled)
    (hnext : ∀ m ∈ past, ∀ k, m.tag = .assigned k → k < n) : ¬Covered settled n := by
  rintro ⟨a, ha, hcovers⟩
  obtain ⟨m, hm, htag⟩ := h.known a ha
  have hlt := hnext m hm a.1 htag
  rcases hcovers with rfl | ⟨_, hlow⟩ <;> omega

/-- A delivery that has to be settled is a message that was handed over. -/
theorem exists_message (h : s.Accounted past settled) {d : Nat}
    (hd : s.machine.channel.Manual d k) : ∃ m ∈ past, m.tag = .assigned k := by
  obtain ⟨message, hlabel, htag⟩ := hd
  obtain ⟨m, hm, hreceived⟩ := h.delivered _ (List.mem_of_getElem? hlabel)
  have hreceived : message = m.received := hreceived
  rw [hreceived] at htag
  exact ⟨m, hm, htag⟩

/-- The accounts stay as they are where the channel's do, and the adapter's do unless the session
ends. -/
theorem of_calm (h : s.Accounted past settled) {new : Option Nat} (hsound : s'.machine.Sound)
    (hcalm : Machine.Calm new s.machine s'.machine)
    (hsub : ∀ x ∈ s'.adapter.unsettled, x ∈ s.adapter.unsettled)
    (hlasting : s'.IsLasting → s.IsLasting ∧ s'.adapter.unsettled = s.adapter.unsettled)
    (hgranted : ∀ call a, s'.machine.asked? call = some a → s'.Granted call →
      new ≠ some call ∧ s.Granted call) : s'.Accounted past settled := by
  have hwaits {k : Nat} (hk : s'.Waits k) : s.Waits k := hk.imp fun m hm => hsub _ hm
  refine ⟨hsound, fun t m hm => h.kept t m (hsub _ hm), ?_, h.known,
    fun k hk => h.taken k (hwaits hk), ?_, ?_, ?_, h.once⟩
  · intro l hl
    rw [hcalm.labels] at hl
    exact h.delivered l hl
  · intro hm k hk
    rw [Tracks, hcalm.pending hm]
    exact h.tracked (hcalm.opened hm) k (hwaits hk)
  · rintro hm d k ⟨message, hlabel, htag⟩
    rw [hcalm.labels] at hlabel
    obtain ⟨hs, hsame⟩ := hlasting hm
    rw [Waits, hsame]
    exact h.held hs d k ⟨message, hlabel, htag⟩
  · intro call a hasked hcall
    obtain ⟨hne, hcall⟩ := hgranted call a hasked hcall
    rw [hcalm.asked? call hne] at hasked
    exact h.granted call a hasked hcall

/-- What is granted after the channel has asked for one more primitive was granted before, but for
the new call. -/
theorem granted_of_asked {m : Machine} {subscriptions : List Subscription} {p : Channel.Primitive}
    {call' : Nat}
    (h : Granted
      { machine := m
        adapter := (s.adapter.issue call p).1
        subscriptions
        outcomes := s.outcomes ++ Client.ended (s.adapter.issue call p).2 } call')
    (hne : call' ≠ call) : s.Granted call' := by
  have hissued := Client.Adapter.issued_issue s.adapter call p
  rcases h with ⟨p', hp', hid⟩ | ⟨reply, ho⟩
  · rcases hissued.mem_pending hp' with hp' | ⟨hid', _⟩
    · exact .inl ⟨p', hp', hid⟩
    · exact absurd (hid.symm.trans hid') hne
  · rcases List.mem_append.mp ho with ho | ho
    · exact .inr ⟨reply, ho⟩
    · obtain ⟨thrown, ho⟩ := hissued.mem_ended ho
      exact nomatch ho

/-- The channel asks for something else than a settlement. -/
theorem step_operation (h : s.Accounted past settled) {r : Channel.Request}
    {c : Channel.Call} {p : Channel.Primitive} (hnew : (Event.issue call r).NewFor s)
    (hasks : Channel.Asks s.machine (.issue call r) c p) (hid : c.id = call)
    (hcalls : (s.machine.step (.issue call r)).1.calls = s.machine.calls ++ [c])
    (hsettle : ¬p.IsSettlement) {subscriptions : List Subscription}
    (hs' : s' =
      { machine := (s.machine.step (.issue call r)).1
        adapter := (s.adapter.issue call p).1
        subscriptions
        outcomes := s.outcomes ++ Client.ended (s.adapter.issue call p).2 })
    (hlasting : s'.IsLasting → s.IsLasting) : s'.Accounted past settled := by
  have hsound := h.sound.step hnew.issue (fun _ hl => nomatch hl)
  have hunsettled : (s.adapter.issue call p).1.unsettled = s.adapter.unsettled ∨
      p.IsAbort ∧ (s.adapter.issue call p).1.unsettled = [] :=
    Client.Adapter.unsettled_issue hsettle
  subst hs'
  refine h.of_calm hsound hnew.calm ?_ ?_ ?_
  · intro x hx
    rcases hunsettled with hsame | ⟨_, hnone⟩
    · exact hsame ▸ hx
    · rw [hnone] at hx
      exact nomatch hx
  · intro hs
    refine ⟨hlasting hs, ?_⟩
    rcases hunsettled with hsame | ⟨habort, _⟩
    · exact hsame
    · exact nomatch hs.1.symm.trans (isOpen_of_asks_abort hasks habort)
  · intro call' a hasked hgranted
    have hne : call' ≠ call := by
      rintro rfl
      have hcall : (s.machine.step (.issue call' r)).1.call? call' = some c := by
        rw [hsound.unique.call?_eq_some_iff, hcalls]
        exact ⟨List.mem_append_right _ (List.mem_singleton_self c), hid⟩
      have hsettles := ((carries_of_asks hasks).settles?_iff hcall).mp hasked
      cases p with
      | basicAck | basicNack => exact hsettle trivial
      | _ => exact nomatch hsettles
    exact ⟨fun he => hne (Option.some.inj he).symm, granted_of_asked hgranted hne⟩

/-- The channel asks for a settlement of a tag that no message waits under. -/
theorem step_missed (h : s.Accounted past settled) (hlinked : s.Linked) {r : Channel.Request}
    (hnew : (Event.issue call r).NewFor s) {thrown : Value}
    (hs' : s' =
      { s with
        machine := (s.machine.step (.issue call r)).1
        outcomes := s.outcomes ++ [(call, .threw thrown)] })
    (hlasting : s'.IsLasting → s.IsLasting) : s'.Accounted past settled := by
  have hsound := h.sound.step hnew.issue (fun _ hl => nomatch hl)
  subst hs'
  refine h.of_calm hsound hnew.calm (fun _ hx => hx) (fun hs => ⟨hlasting hs, rfl⟩) ?_
  intro call' a _ hgranted
  have hgranted : s.Granted call' := by
    rcases hgranted with hp | ⟨reply, ho⟩
    · exact .inl hp
    · rcases List.mem_append.mp ho with ho | ho
      · exact .inr ⟨reply, ho⟩
      · exact nomatch List.mem_singleton.mp ho
  exact ⟨hlinked.ne_of_granted hnew rfl hgranted, hgranted⟩

/-- All tags that messages wait under are assigned. -/
theorem assigned (h : s.Accounted past settled) : s.adapter.unsettled.Assigned := by
  rintro ⟨t, m⟩ hm
  exact (h.kept t m hm).2.2

/-- The client gets a settlement: what it covers waits at the adapter no more. -/
theorem step_taken (h : s.Accounted past settled) {d : Nat} {st : Settlement}
    {multiple requeue : Value} {delivery : Delivery} {m : Message}
    (hnew : (Event.issue call (.settle d st multiple requeue)).NewFor s)
    (hchannel : s.machine.channel.isOpen = true)
    (hd : s.machine.channel.deliveries[d]? = some delivery) (hawaits : delivery.Awaits n)
    (hm : (.assigned n, m) ∈ s.adapter.unsettled) {all : Bool}
    (hall : all = (multiple.ifDefined (.bool false)).isTruthy) {p : Client.Pending}
    (hp : p.id = call) {subscriptions : List Subscription}
    (hs' : s' =
      { machine := (s.machine.step (.issue call (.settle d st multiple requeue))).1
        adapter := { s.adapter with
          unsettled := s.adapter.unsettled.filter (!·.1.coveredBy n all)
          pending := s.adapter.pending ++ [p] }
        subscriptions
        outcomes := s.outcomes })
    (hlasting : s'.IsLasting → s.IsLasting) : s'.Accounted past (settled ++ [(n, all)]) := by
  have hcalm := hnew.calm
  have hsound := h.sound.step hnew.issue (fun _ hl => nomatch hl)
  have hasked : (s.machine.step (.issue call (.settle d st multiple requeue))).1.asked? call =
      some (n, all) := by
    rw [hall]
    exact Machine.asked?_step_settle hchannel hd hawaits hsound.unique
  subst hs'
  have hwaits {k : Nat} : (∃ m, (Tag.assigned k, m) ∈
      s.adapter.unsettled.filter (!·.1.coveredBy n all)) ↔ s.Waits k ∧ ¬Covers n all k := by
    simp [Waits, Tag.coveredBy]
  refine ⟨hsound, fun t m hm => h.kept t m (List.mem_filter.mp hm).1, ?_, ?_, ?_, ?_, ?_, ?_, ?_⟩
  · intro l hl
    rw [hcalm.labels] at hl
    exact h.delivered l hl
  · intro a ha
    rcases List.mem_append.mp ha with ha | ha
    · exact h.known a ha
    · obtain ⟨hpast, htag, _⟩ := h.kept _ _ hm
      rw [List.mem_singleton.mp ha]
      exact ⟨m, hpast, htag.symm⟩
  · rintro k hk ⟨a, ha, hcovers⟩
    obtain ⟨hk, hnot⟩ := hwaits.mp hk
    rcases List.mem_append.mp ha with ha | ha
    · exact h.taken k hk ⟨a, ha, hcovers⟩
    · rw [List.mem_singleton.mp ha] at hcovers
      exact hnot hcovers
  · intro hm k hk
    rw [Tracks, hcalm.pending hm]
    exact h.tracked (hcalm.opened hm) k (hwaits.mp hk).1
  · rintro hm d' k ⟨message, hlabel, htag⟩
    rw [hcalm.labels] at hlabel
    rcases h.held (hlasting hm) d' k ⟨message, hlabel, htag⟩ with hk | ⟨a, ha, hcovers⟩
    · by_cases hcovers : Covers n all k
      · exact .inr ⟨_, List.mem_append_right _ (List.mem_singleton_self _), hcovers⟩
      · exact .inl (hwaits.mpr ⟨hk, hcovers⟩)
    · exact .inr ⟨a, List.mem_append_left _ ha, hcovers⟩
  · intro call' a hasked' hgranted
    by_cases hne : call' = call
    · subst hne
      rw [hasked] at hasked'
      exact List.mem_append_right _ (List.mem_singleton.mpr (Option.some.inj hasked').symm)
    · rw [hcalm.asked? call' (fun he => hne (Option.some.inj he).symm)] at hasked'
      refine List.mem_append_left _ (h.granted call' a hasked' ?_)
      rcases hgranted with ⟨p', hp', hid⟩ | ho
      · rcases List.mem_append.mp hp' with hp' | hp'
        · exact .inl ⟨p', hp', hid⟩
        · rw [List.mem_singleton.mp hp', hp] at hid
          exact absurd hid.symm hne
      · exact .inr ho
  · rw [List.pairwise_append]
    refine ⟨h.once, List.pairwise_singleton _ _, ?_⟩
    intro a ha b hb hcovers
    rw [List.mem_singleton.mp hb] at hcovers
    exact h.taken n ⟨m, hm⟩ ⟨a, ha, hcovers⟩

/-- The client answers a primitive that waits. -/
theorem step_replied (h : s.Accounted past settled) (hlinked : s.Linked) {o : Channel.Outcome}
    {p : Client.Pending} (hp : s.adapter.pending.find? (·.id == call) = some p)
    (hs' : s' =
      { s with
        adapter := ({ s.adapter with
          pending := s.adapter.pending.filter (·.id != call) }.answer p o).1
        outcomes := s.outcomes ++ [(call, Client.Adapter.conclusion p o)] })
    (hlasting : s'.IsLasting → s.IsLasting) : s'.Accounted past settled := by
  obtain ⟨hmem, hid⟩ : p ∈ s.adapter.pending ∧ p.id = call :=
    ⟨List.mem_of_find?_eq_some hp, by simpa using List.find?_some hp⟩
  have hanswer := Client.Adapter.answered_answer
    { s.adapter with pending := s.adapter.pending.filter (·.id != call) } p o
  subst hs'
  refine h.of_calm h.sound (.refl _) ?_ ?_ ?_
  · intro x hx
    rcases hanswer.unsettled with hsame | ⟨hnone, _⟩
    · exact hsame ▸ hx
    · rw [hnone] at hx
      cases hx
  · intro hs
    refine ⟨hlasting hs, ?_⟩
    rcases hanswer.unsettled with hsame | ⟨_, ⟨params, hclose⟩, reply, rfl⟩
    · exact hsame
    · -- The client has closed its channel.
      obtain ⟨c, hcall, hcarries⟩ := hlinked.carried p hmem
      rw [hclose] at hcarries
      have hreplied : Client.Adapter.conclusion p (.replied reply) = .replied .undefined := by
        simp only [Client.Adapter.conclusion, Client.Adapter.accept, hclose]
      refine absurd ⟨call, .undefined, ?_, hid ▸ hcarries.isClosing hcall⟩ hs.2
      rw [← hreplied]
      exact List.mem_append_right _ (List.mem_singleton_self _)
  · intro call' a _ hgranted
    refine ⟨(Option.some_ne_none call').symm, ?_⟩
    rcases hgranted with ⟨p', hp', hid'⟩ | ⟨reply, ho⟩
    · rw [hanswer.pending] at hp'
      exact .inl ⟨p', (List.mem_filter.mp hp').1, hid'⟩
    · rcases List.mem_append.mp ho with ho | ho
      · exact .inr ⟨reply, ho⟩
      · have hcall : call' = call := congrArg Prod.fst (List.mem_singleton.mp ho)
        exact .inl ⟨p, hmem, hid.trans hcall.symm⟩

/-- The channel hears what the primitive of a call came to. -/
theorem step_answered (h : s.Accounted past settled) {o : Channel.Outcome}
    (ho : (call, o) ∈ s.outcomes)
    (hs' : s' =
      { s with
        machine := (s.machine.step (.answered call o)).1
        outcomes := s.outcomes.filter (·.1 != call) })
    (hlasting : s'.IsLasting → s.IsLasting) : s'.Accounted past settled := by
  have hsound := h.sound.step (e := .answered call o) (by nofun) (fun _ hl => nomatch hl)
  have hlabels : (s.machine.step (.answered call o)).1.channel.labels =
      s.machine.channel.labels := by
    rcases Channel.labels_step s.machine (.answered call o) with hsame | ⟨l, hl, _⟩
    · exact hsame
    · exact nomatch hl
  subst hs'
  refine ⟨hsound, h.kept, ?_, h.known, h.taken, ?_, ?_, ?_, h.once⟩
  · intro l hl
    rw [hlabels] at hl
    exact h.delivered l hl
  · intro hm k hk
    obtain ⟨d, hd⟩ := h.tracked (Machine.isOpen_step_iff.mp hm).1 k hk
    refine ⟨d, ?_⟩
    cases Channel.ledgerChange_step s.machine (.answered call o) with
    | same hsame => exact hsame ▸ hd
    | ended hclosed => exact nomatch hm.symm.trans hclosed
    | tracked hl => exact nomatch hl
    | @settled c d' st multiple requeue reply wasOpen he hcall hrequest hphase hchannel =>
      obtain ⟨rfl, rfl⟩ := Channel.Event.answered.inj he
      have hasked := Machine.asked?_eq_some_iff.mpr
        ⟨c, d', st, multiple, requeue, wasOpen, hcall, hrequest, hphase, rfl, rfl⟩
      have hcovering := h.granted _ _ hasked (.inr ⟨reply, ho⟩)
      rw [hchannel, Channel.pending_release, TagMap.mem_kept_settle h.sound.assigned]
      exact ⟨hd, fun hcovers => h.taken k hk ⟨_, hcovering, hcovers⟩⟩
  · rintro hm d k ⟨message, hlabel, htag⟩
    rw [hlabels] at hlabel
    exact h.held (hlasting hm) d k ⟨message, hlabel, htag⟩
  · intro call' a hasked hgranted
    refine h.granted call' a (Machine.asked?_of_step hasked (by nofun)) ?_
    rcases hgranted with hp | ⟨reply, ho'⟩
    · exact .inl hp
    · exact .inr ⟨reply, (List.mem_filter.mp ho').1⟩

/-- No delivery has to be settled under the tag of the next message. -/
theorem not_manual_of_next (h : s.Accounted past settled)
    (hnext : ∀ m ∈ past, ∀ k, m.tag = .assigned k → k < n) (d : Nat) :
    ¬s.machine.channel.Manual d n := by
  intro hd
  obtain ⟨m, hm, htag⟩ := h.exists_message hd
  exact absurd (hnext m hm n htag) (Nat.lt_irrefl n)

/-- The next message takes no other's place at the adapter. -/
theorem track_of_next (h : s.Accounted past settled) {message : Message}
    (htag : message.tag = .assigned n) (hnext : ∀ m ∈ past, ∀ k, m.tag = .assigned k → k < n) :
    s.adapter.unsettled.track message.tag message =
      s.adapter.unsettled ++ [(.assigned n, message)] := by
  rw [htag]
  apply TagMap.track_of_fresh
  rintro ⟨t, m⟩ hm
  obtain ⟨hpast, htag', k, rfl⟩ := h.kept t m hm
  have hne := Nat.ne_of_lt (hnext m hpast k htag'.symm)
  simpa using hne

/-- The channel takes a delivery of the next message on its ledger if it has to be settled. -/
theorem pending_handed (h : s.Accounted past settled) (number : Nat) (mode : AckMode)
    {message : Message} (htag : message.tag = .assigned n)
    (hnext : ∀ m ∈ past, ∀ k, m.tag = .assigned k → k < n)
    (hopen : s.machine.channel.isOpen = true) :
    (s.machine.step (.arrived number mode message.received)).1.channel.pending =
      s.machine.channel.pending ++ match mode with
        | .manual => [(.assigned n, s.machine.channel.deliveries.length)]
        | .auto => [] := by
  simp only [Machine.step, Machine.arrive, hopen, if_true]
  cases mode with
  | auto => exact (List.append_nil _).symm
  | manual =>
    have hreceived : message.received.tag = .assigned n := htag
    exact h.sound.pending_receive hreceived (h.not_manual_of_next hnext)

/-- The channel's deliveries are messages that were handed over when one more has been. -/
theorem delivered_handed (h : s.Accounted past settled) (number : Nat) (mode : AckMode)
    (message : Message) :
    ∀ l ∈ (s.machine.step (.arrived number mode message.received)).1.channel.labels,
      ∃ m ∈ past ++ [message], l.1 = m.received := by
  intro l hl
  have hold (hl : l ∈ s.machine.channel.labels) : ∃ m ∈ past ++ [message], l.1 = m.received := by
    obtain ⟨m, hm, hreceived⟩ := h.delivered l hl
    exact ⟨m, List.mem_append_left _ hm, hreceived⟩
  rcases Channel.labels_step s.machine (.arrived number mode message.received) with hsame |
    ⟨l', hl', happend⟩
  · exact hold (hsame ▸ hl)
  · rw [happend] at hl
    rcases List.mem_append.mp hl with hl | hl
    · exact hold hl
    · rw [List.mem_singleton.mp hl]
      obtain rfl := Option.some.inj hl'
      exact ⟨message, List.mem_append_right _ (List.mem_singleton_self _), rfl⟩

/-- A message reaches both parts of a session. -/
theorem step_handed (h : s.Accounted past settled) (number : Nat) {mode : AckMode}
    {message : Message} (htag : message.tag = .assigned n)
    (hnext : ∀ m ∈ past, ∀ k, m.tag = .assigned k → k < n)
    {unsettled : TagMap Message}
    (hunsettled : unsettled = match mode with
      | .manual => s.adapter.unsettled.track message.tag message
      | .auto => s.adapter.unsettled)
    (hs' : s' =
      { s with
        machine := (s.machine.step (.arrived number mode message.received)).1
        adapter := { s.adapter with unsettled } })
    (hlasting : s'.IsLasting → s.IsLasting) : s'.Accounted (past ++ [message]) settled := by
  have hfresh : (Channel.Event.arrived number mode message.received).FreshFor s.machine := by
    rintro _ ⟨⟩
    exact ⟨n, htag, h.not_manual_of_next hnext⟩
  have hsound := h.sound.step (e := .arrived number mode message.received) (by nofun) hfresh
  have htrack := h.track_of_next htag hnext
  have hwaits (k : Nat) : (∃ m, (Tag.assigned k, m) ∈ unsettled) ↔
      s.Waits k ∨ mode = .manual ∧ k = n := by
    cases mode with
    | auto => simp [hunsettled, Waits]
    | manual => simp [hunsettled, htrack, Waits, exists_or]
  subst hs'
  refine ⟨hsound, ?_, h.delivered_handed number mode message, ?_, ?_, ?_, ?_, ?_, h.once⟩
  · intro t m hm
    have hm : (t, m) ∈ s.adapter.unsettled ∨ (t, m) = (.assigned n, message) := by
      cases mode with
      | auto => exact .inl (by simpa only [hunsettled] using hm)
      | manual => simpa [hunsettled, htrack] using hm
    rcases hm with hm | hm
    · obtain ⟨hpast, htag'⟩ := h.kept t m hm
      exact ⟨List.mem_append_left _ hpast, htag'⟩
    · obtain ⟨rfl, rfl⟩ := Prod.mk.inj hm
      exact ⟨List.mem_append_right _ (List.mem_singleton_self _), htag.symm, n, rfl⟩
  · intro a ha
    obtain ⟨m, hm, htag'⟩ := h.known a ha
    exact ⟨m, List.mem_append_left _ hm, htag'⟩
  · intro k hk
    rcases (hwaits k).mp hk with hk | ⟨_, rfl⟩
    · exact h.taken k hk
    · exact h.not_covered_of_next hnext
  · intro hm k hk
    have hm := (Machine.isOpen_step_iff.mp hm).1
    rw [Tracks, h.pending_handed number mode htag hnext hm]
    rcases (hwaits k).mp hk with hk | ⟨rfl, rfl⟩
    · obtain ⟨d, hd⟩ := h.tracked hm k hk
      exact ⟨d, List.mem_append_left _ hd⟩
    · exact ⟨_, List.mem_append_right _ (List.mem_singleton_self _)⟩
  · intro hm d k hd
    rcases hd.of_step with hd | ⟨_, message', hl, htag'⟩
    · rcases h.held (hlasting hm) d k hd with hk | hcovered
      · exact .inl ((hwaits k).mpr (.inl hk))
      · exact .inr hcovered
    · cases hl
      have hk : k = n := Tag.assigned.inj (htag'.symm.trans htag)
      exact .inl ((hwaits k).mpr (.inr ⟨rfl, hk⟩))
  · intro call a hasked hgranted
    rw [Machine.asked?_congr (Machine.call?_step_of_ne (by nofun))] at hasked
    exact h.granted call a hasked hgranted

/-- No message and no answer comes aside. -/
theorem sound_run {m : Machine} (hsound : m.Sound) {events : List Channel.Event}
    (h : ∀ f ∈ events, IsAside f) : (m.run events).1.Sound := by
  induction events generalizing m with
  | nil => exact hsound
  | cons f events ih =>
    obtain ⟨hf, hrest⟩ := List.forall_mem_cons.mp h
    obtain ⟨hissued, hlabel, _⟩ := hf.accounts
    have hstep := hsound.step (e := f) (fun _ he => nomatch hissued.symm.trans he)
      (fun _ hl => nomatch hlabel.symm.trans hl)
    exact ih hstep hrest

/-- The channel asks for a settlement: the client gets it if a message waits under the tag. -/
theorem step_settlement (h : s.Accounted past settled) (hlinked : s.Linked) {d : Nat}
    {st : Settlement} {multiple requeue : Value} {delivery : Delivery}
    (hnew : (Event.issue call (.settle d st multiple requeue)).NewFor s)
    (hchannel : s.machine.channel.isOpen = true)
    (hd : s.machine.channel.deliveries[d]? = some delivery) (hawaits : delivery.Awaits n)
    {p : Channel.Primitive} (hp : p = Channel.Request.settlePrimitive st n
      (multiple.ifDefined (.bool false)) (requeue.ifDefined (.bool true)))
    (hs' : s' =
      { machine := (s.machine.step (.issue call (.settle d st multiple requeue))).1
        adapter := (s.adapter.issue call p).1
        subscriptions := s.subscriptions
        outcomes := s.outcomes ++ Client.ended (s.adapter.issue call p).2 })
    (hlasting : s'.IsLasting → s.IsLasting) :
    s'.Accounted past (settled ++ (Client.called (s.adapter.issue call p).2).filterMap
      Client.Call.settles?) := by
  subst hp
  cases hentry : s.adapter.unsettled.entry? (.assigned n) with
  | none =>
    rw [Client.Adapter.issue_settlePrimitive_of_missing hentry] at hs' ⊢
    simp only [Client.called, Client.ended, List.filterMap_cons, Client.Effect.called?,
      Client.Effect.ended?, List.filterMap_nil, List.append_nil] at hs' ⊢
    exact h.step_missed hlinked hnew hs' hlasting
  | some m =>
    have hm := TagMap.mem_of_entry?_eq_some hentry
    have htag : m.tag = .assigned n := (h.kept _ _ hm).2.1.symm
    rw [Client.Adapter.issue_settlePrimitive_of_waiting h.assigned hentry] at hs' ⊢
    simp only [Client.called, Client.ended, List.filterMap_cons, Client.Effect.called?,
      Client.Effect.ended?, List.filterMap_nil, List.append_nil,
      Client.settles?_settleCall htag] at hs' ⊢
    exact h.step_taken hnew hchannel hd hawaits hm rfl rfl hs' hlasting

/-- A message that reaches nobody changes nothing. -/
theorem of_more (h : s.Accounted past settled) (more : List Message) :
    s.Accounted (past ++ more) settled where
  sound := h.sound
  kept := fun t m hm => (h.kept t m hm).imp_left (List.mem_append_left _)
  delivered := by
    intro l hl
    obtain ⟨m, hm, hreceived⟩ := h.delivered l hl
    exact ⟨m, List.mem_append_left _ hm, hreceived⟩
  known := by
    intro a ha
    obtain ⟨m, hm, htag⟩ := h.known a ha
    exact ⟨m, List.mem_append_left _ hm, htag⟩
  taken := h.taken
  tracked := h.tracked
  held := h.held
  granted := h.granted
  once := h.once

/-- Every step keeps the accounts. -/
theorem step (h : s.Accounted past settled) (hlinked : s.Linked) (hnew : e.NewFor s)
    (hformed : e.IsFormed) (hnext : e.NextAfter past) :
    (s.step e).Accounted (past ++ e.message?.toList)
      (settled ++ (s.calls e).filterMap Client.Call.settles?) := by
  have hlasting := isLasting_of_step hlinked hnew hformed
  have hchange := step_transition s e
  generalize hs' : s.step e = s', s.calls e = calls at hchange hlasting
  cases hchange with
  | @kept call r hquiet =>
    have hsound := h.sound.step hnew.issue (by rintro _ ⟨⟩)
    simp only [Event.message?, Option.toList_none, List.filterMap_nil, List.append_nil]
    refine h.of_calm hsound hnew.calm (fun _ hx => hx) (fun hs => ⟨hlasting hs, rfl⟩) ?_
    exact fun call' a _ hgranted => ⟨hlinked.ne_of_granted hnew rfl hgranted, hgranted⟩
  | @asked call r c p hasks hid hcalls =>
    simp only [Event.message?, Option.toList_none, List.append_nil]
    cases hasks with
    | @operation _ r summary p hp hchannel =>
      have hsettle := (delivery?_of_primitive? hp).2
      rw [Client.Adapter.filterMap_settles?_called hsettle, List.append_nil]
      exact h.step_operation hnew (.operation hp hchannel) hid hcalls hsettle rfl hlasting
    | settlement hchannel hd hawaits =>
      exact h.step_settlement hlinked hnew hchannel hd hawaits rfl (by simp [Event.subscription?])
        hlasting
  | replied hp =>
    simp only [Event.message?, Option.toList_none, List.filterMap_nil, List.append_nil]
    exact h.step_replied hlinked hp rfl hlasting
  | answered ho =>
    simp only [Event.message?, Option.toList_none, List.filterMap_nil, List.append_nil]
    exact h.step_answered ho rfl hlasting
  | @handed consumer message c hc hdetached =>
    obtain ⟨number, hnews⟩ := hlinked.news_hand hc hdetached (hformed message rfl)
    obtain ⟨n, htag, hbelow⟩ := hnext message rfl
    simp only [Event.message?, Option.toList_some, List.filterMap_nil, List.append_nil]
    have hunsettled : (s.adapter.hand consumer message).1.unsettled = match c.mode with
        | .manual => s.adapter.unsettled.track message.tag message
        | .auto => s.adapter.unsettled := by
      cases hmode : c.mode <;> simp [Client.Adapter.hand, hc, hdetached, hmode]
    exact h.step_handed number htag hbelow hunsettled
      (by rw [hnews, machine_run_singleton, ← hand_fst]) hlasting
  | @aside _ events tags listeners hevents =>
    simp only [List.filterMap_nil, List.append_nil]
    refine (h.of_more _).of_calm (sound_run h.sound hevents) (calm_run hevents) (fun _ hx => hx)
      (fun hs => ⟨hlasting hs, rfl⟩) ?_
    exact fun call a _ hgranted => ⟨(Option.some_ne_none call).symm, hgranted⟩

end Accounted

end Session

end Amqp
