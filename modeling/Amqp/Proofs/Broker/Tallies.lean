import Amqp.Proofs.Broker.Registries
import Amqp.Proofs.Channel.Asking
import Amqp.Proofs.Client.Adapter

/-!
# What a channel has handed out

The tally of a channel is what its user can keep account of too: whether the channel has ended, the
tag that comes next, and the tags that wait for a settlement. A tally changes when the channel is
handed a message, when it ends, and when something is settled. The user hears of the first two, and
`Told` lists how the effects of a broker tell of them; the third is what the user asked for. What a
request comes to is `Aside`, `Settled` or `Ending`.
-/

namespace Amqp.Broker

/-- What a channel has handed out. -/
structure Tally where
  closed : Bool := false
  /-- The tag of the next message. -/
  next : Nat := 1
  /-- The tags that wait for a settlement, in the order they were handed out. -/
  tags : List Nat := []
  deriving DecidableEq, Repr, Inhabited

namespace Tally

/-- The tally once a message is handed to a consumer of that mode. -/
def hand (t : Tally) (mode : AckMode) : Tally where
  closed := t.closed
  next := t.next + 1
  tags :=
    match mode with
    | .manual => t.tags ++ [t.next]
    | .auto => t.tags

/-- The tally once the channel has ended. -/
def ended (t : Tally) : Tally := { t with closed := true, tags := [] }

/-- The tally once the channel has ended, if it has not ended before. -/
def shut (t : Tally) : Tally := if t.closed then t else t.ended

/-- The tally once a tag is settled, with `multiple` together with all smaller ones. -/
def settle (t : Tally) (n : Nat) (multiple : Bool) : Tally :=
  { t with tags := t.tags.filter fun k => !decide (Covers n multiple k) }

end Tally

/-- The tally of a channel. -/
def Channel.tally (c : Channel) : Tally := ⟨c.closed, c.nextTag, c.unacked.map (·.1)⟩

/-- The tallies of all channels. -/
def tallies (b : Broker) : List Tally := b.channels.map (·.tally)

/-- How effects tell of what becomes of tallies. Messages are handed out on channels, to consumers
of those numbers and modes. -/
inductive Told (known : Nat → Nat → AckMode → Prop) :
    List Tally → List Effect → List Tally → Prop where
  | nothing {ts : List Tally} : Told known ts [] ts
  /-- A message is handed out, under the next tag of its channel. -/
  | handed {ts ts' : List Tally} {t : Tally} {ch number : Nat} {mode : AckMode} {m : Message}
      {effects : List Effect} (ht : ts[ch]? = some t) (hknown : known ch number mode)
      (htag : m.tag = .assigned t.next) (h : Told known (ts.modify ch (·.hand mode)) effects ts') :
      Told known ts (.deliver ch number m :: effects) ts'
  /-- An open channel ends. -/
  | ended {ts ts' : List Tally} {t : Tally} {ch : Nat} {error : Option Value}
      {effects : List Effect} (ht : ts[ch]? = some t) (hopen : t.closed = false)
      (h : Told known (ts.modify ch .ended) effects ts') :
      Told known ts (.lost ch error :: effects) ts'

/-- The consumers of all queues have those channels, numbers and modes. -/
def Serves (b : Broker) (known : Nat → Nat → AckMode → Prop) : Prop :=
  ∀ q ∈ b.queues, ∀ s ∈ q.consumers, known s.channel s.number s.mode

open Amqp.Channel (Request)

variable {b b' : Broker} {ch number : Nat} {f : Channel → Channel}
  {known : Nat → Nat → AckMode → Prop} {ts₁ ts₂ ts₃ : List Tally} {effects effects' : List Effect}

/-- Effects after effects. -/
theorem Told.trans (h : Told known ts₁ effects ts₂) (h' : Told known ts₂ effects' ts₃) :
    Told known ts₁ (effects ++ effects') ts₃ := by
  induction h with
  | nothing => exact h'
  | handed ht hknown htag _ ih => exact .handed ht hknown htag (ih h')
  | ended ht hopen _ ih => exact .ended ht hopen (ih h')

/-- No channel comes or goes with what is told. -/
theorem Told.length_eq (h : Told known ts₁ effects ts₂) : ts₂.length = ts₁.length := by
  induction h with
  | nothing => rfl
  | handed _ _ _ _ ih => exact ih.trans (List.length_modify ..)
  | ended _ _ _ ih => exact ih.trans (List.length_modify ..)

/-! ## The tallies of a broker -/

theorem getElem?_tallies {c : Channel} (hc : b.channels[ch]? = some c) :
    b.tallies[ch]? = some c.tally := by
  rw [tallies, List.getElem?_map, hc, Option.map_some]

/-- A tally is that of a channel. -/
theorem exists_tally_eq {t : Tally} (ht : b.tallies[ch]? = some t) :
    ∃ c, b.channels[ch]? = some c ∧ c.tally = t := by
  rw [tallies, List.getElem?_map] at ht
  exact Option.map_eq_some_iff.mp ht

/-- A channel that is there and cannot be used is closed. -/
theorem closed_of_openChannel {c : Channel} {fault : Fault} (h : b.openChannel ch = .error fault)
    (hc : b.channels[ch]? = some c) : c.closed = true := by
  rw [← Bool.not_eq_false]
  intro hopen
  have hok := openChannel_eq_ok.mpr ⟨hc, hopen⟩
  rw [h] at hok
  cases hok

/-- An open channel has an open tally. -/
theorem IsOpen.closed_eq {t : Tally} (h : b.IsOpen ch) (ht : b.tallies[ch]? = some t) :
    t.closed = false := by
  obtain ⟨c, hopen⟩ := h
  obtain ⟨hc, hclosed⟩ := openChannel_eq_ok.mp hopen
  obtain rfl := Option.some.inj (ht.symm.trans (getElem?_tallies hc))
  exact hclosed

/-- A change of a channel changes its tally. -/
theorem tallies_modifyChannel {g : Tally → Tally}
    (hf : ∀ c, b.channels[ch]? = some c → (f c).tally = g c.tally) :
    (b.modifyChannel ch f).tallies = b.tallies.modify ch g := by
  apply List.ext_getElem?
  intro i
  simp only [tallies, modifyChannel, List.getElem?_map, List.getElem?_modify]
  cases hc : b.channels[i]? with
  | none => rfl
  | some c =>
    by_cases hi : ch = i
    · subst hi
      simp [hf c hc]
    · simp [hi]

/-- A change of a channel that leaves its tally alone leaves all of them alone. -/
theorem tallies_modifyChannel_of_eq (hf : ∀ c, (f c).tally = c.tally) :
    (b.modifyChannel ch f).tallies = b.tallies := by
  rw [tallies_modifyChannel (g := id) (by exact fun c _ => hf c), List.modify_id]

theorem tallies_forget (b : Broker) (ss : List Consumer) :
    (ss.foldl forget b).tallies = b.tallies := by
  induction ss generalizing b with
  | nil => rfl
  | cons s ss ih =>
    rw [List.foldl_cons, ih]
    exact tallies_modifyChannel_of_eq (by exact fun _ => rfl)

/-! ## Channels that end -/

/-- The end of an open channel. -/
theorem terminate_of_open {c : Channel} (hopen : b.openChannel ch = .ok c) (error : Option Value) :
    (b.terminate ch error).1.tallies = b.tallies.modify ch .ended ∧
      (b.terminate ch error).2 = [.lost ch error] := by
  simp only [terminate, hopen, and_true]
  have hended : (b.modifyChannel ch fun c =>
      { c with closed := true, consumers := [], unacked := [] }).tallies =
        b.tallies.modify ch .ended := tallies_modifyChannel fun _ _ => rfl
  rw [tallies, channels_requeue, channels_removeConsumers]
  exact hended

/-- Ending channels tells of their ends. -/
theorem told_terminate (b : Broker) (ch : Nat) (error : Option Value) :
    Told known b.tallies (b.terminate ch error).2 (b.terminate ch error).1.tallies := by
  cases hopen : b.openChannel ch with
  | error fault =>
    simp only [terminate, hopen]
    exact .nothing
  | ok c =>
    obtain ⟨hc, hclosed⟩ := openChannel_eq_ok.mp hopen
    obtain ⟨htallies, heffects⟩ := terminate_of_open hopen error
    rw [htallies, heffects]
    exact .ended (getElem?_tallies hc) hclosed .nothing

theorem told_disconnect (b : Broker) (error : Value) :
    Told known b.tallies (b.disconnect error).2 (b.disconnect error).1.tallies := by
  rw [disconnect]
  refine List.foldlRecOn
    (motive := fun r : Broker × List Effect => Told known b.tallies r.2 r.1.tallies) _ _ .nothing ?_
  intro r hr ch _
  exact hr.trans (told_terminate r.1 ch (some error))

/-- A channel that is to end has ended then, now or before. -/
theorem tallies_terminate (b : Broker) (ch : Nat) (error : Option Value) :
    (b.terminate ch error).1.tallies = b.tallies.modify ch .shut := by
  cases hopen : b.openChannel ch with
  | error fault =>
    simp only [terminate, hopen]
    refine (List.ext_getElem? fun i => ?_).symm
    rw [List.getElem?_modify]
    cases ht : b.tallies[i]? with
    | none => rfl
    | some t =>
      obtain ⟨c, hc, rfl⟩ := exists_tally_eq ht
      by_cases hi : ch = i
      · subst hi
        have hclosed := closed_of_openChannel hopen hc
        simp [Tally.shut, Channel.tally, hclosed]
      · simp [hi]
  | ok c =>
    obtain ⟨hc, hclosed⟩ := openChannel_eq_ok.mp hopen
    rw [(terminate_of_open hopen error).1]
    refine List.ext_getElem? fun i => ?_
    rw [List.getElem?_modify, List.getElem?_modify]
    by_cases hi : ch = i
    · subst hi
      simp [getElem?_tallies hc, Tally.shut, Channel.tally, hclosed]
    · simp [hi]

/-- Where the connection drops, all channels have ended. -/
theorem tallies_disconnect (b : Broker) (error : Value) :
    (b.disconnect error).1.tallies = b.tallies.map .shut := by
  have hfirst (n i : Nat) :
      ((List.range n).foldl (fun (r : Broker × List Effect) ch =>
        ((r.1.terminate ch (some error)).1, r.2 ++ (r.1.terminate ch (some error)).2))
          (b, [])).1.tallies[i]? =
        if i < n then (b.tallies[i]?).map .shut else b.tallies[i]? := by
    induction n with
    | zero => rfl
    | succ n ih =>
      rw [List.range_succ, List.foldl_append, List.foldl_cons, List.foldl_nil, tallies_terminate,
        List.getElem?_modify, ih]
      by_cases hi : n = i
      · subst hi
        simp
      · have hlt : i < n + 1 ↔ i < n := by omega
        simp only [hi, hlt, if_false, Option.map_eq_map, Option.map_id_fun', id_eq]
  refine List.ext_getElem? fun i => (hfirst b.channels.length i).trans ?_
  rw [List.getElem?_map]
  by_cases hi : i < b.channels.length
  · rw [if_pos hi]
  · have hnone : b.tallies[i]? = none := by
      simpa [tallies] using hi
    rw [if_neg hi, hnone, Option.map_none]

/-! ## Messages that are handed out -/

theorem tallies_handedTo (b : Broker) (q : Queue) (h : Handover) :
    (b.handedTo q h).tallies = b.tallies.modify h.consumer.channel (·.hand h.consumer.mode) := by
  have hhand (c : Channel) : (c.taking q h).tally = c.tally.hand h.consumer.mode := by
    cases hmode : h.consumer.mode <;> simp [Channel.taking, Channel.tally, Tally.hand, hmode]
  exact tallies_modifyChannel (by exact fun c _ => hhand c)

/-- Handing out copies leaves the consumers as they are. -/
theorem Serves.handedTo (h : b.Serves known) (q : Queue) (x : Handover) :
    (b.handedTo q x).Serves known := by
  intro q' hq' s hs
  obtain ⟨q₀, hq₀, ⟨_, rfl⟩ | ⟨_, rfl⟩⟩ := mem_modifyQueue hq'
  · exact h q₀ hq₀ s hs
  · exact h q' hq₀ s hs

/-- Serving a queue tells of the messages that are handed out. -/
theorem told_handOut (hserves : b.Serves known) (id bound : Nat) :
    Told known b.tallies (b.handOut id bound).2 (b.handOut id bound).1.tallies := by
  induction bound generalizing b with
  | zero => exact .nothing
  | succ bound ih =>
    simp only [handOut]
    cases h : b.handOut? id with
    | none => exact .nothing
    | some next =>
      obtain ⟨b', e⟩ := next
      obtain ⟨q, copy, _, s, c, hq, _, hs, hc, _, rfl, rfl⟩ := handOut?_eq_some h
      have hknown : known s.channel s.number s.mode := hserves q (mem_of_queueById? hq) s hs
      refine .handed (getElem?_tallies hc) hknown rfl ?_
      rw [← tallies_handedTo b q ⟨copy, c.nextTag, s⟩]
      exact ih (hserves.handedTo q _)

theorem told_serve (hserves : b.Serves known) :
    Told known b.tallies b.serve.2 b.serve.1.tallies := by
  rw [serve]
  cases b.scheduled with
  | nil => exact .nothing
  | cons id rest =>
    simp only [queueById?]
    cases b.queues.find? (·.id == id) with
    | none => exact .nothing
    | some q => exact told_handOut (b := { b with scheduled := rest }) hserves id q.messages.length

/-- Serving a queue leaves a channel alone that no queue has a consumer of. -/
theorem tallies_handOut_of_ne (hserves : b.Serves fun ch' _ _ => ch' ≠ ch) (id bound : Nat) :
    (b.handOut id bound).1.tallies[ch]? = b.tallies[ch]? := by
  induction bound generalizing b with
  | zero => rfl
  | succ bound ih =>
    simp only [handOut]
    cases h : b.handOut? id with
    | none => rfl
    | some next =>
      obtain ⟨b', e⟩ := next
      obtain ⟨q, copy, _, s, c, hq, _, hs, _, _, rfl, rfl⟩ := handOut?_eq_some h
      have hne : s.channel ≠ ch := hserves q (mem_of_queueById? hq) s hs
      have hrest := ih (hserves.handedTo q ⟨copy, c.nextTag, s⟩)
      rw [tallies_handedTo] at hrest
      exact hrest.trans (List.getElem?_modify_ne _ _ hne)

theorem tallies_serve_of_ne (hserves : b.Serves fun ch' _ _ => ch' ≠ ch) :
    b.serve.1.tallies[ch]? = b.tallies[ch]? := by
  rw [serve]
  cases b.scheduled with
  | nil => rfl
  | cons id rest =>
    simp only [queueById?]
    cases b.queues.find? (·.id == id) with
    | none => rfl
    | some q => exact tallies_handOut_of_ne (b := { b with scheduled := rest }) hserves id _

/-! ## Consumers -/

/-- The mode that a consumer with those options has. -/
def modeOf (options : Value) : AckMode :=
  if (options.field "noAck").isTruthy then .auto else .manual

/-- A consumer that is started has the mode that its options say. -/
theorem mode_of_start {name name' options : Value} {id : Nat} {s : Consumer}
    (h : (Event.request ch number (.basicConsume name options)).change b = .start id s name') :
    s.mode = modeOf options := by
  simp only [Event.change, change] at h
  cases hopen : b.openChannel ch with
  | error fault => simp only [hopen, reduceCtorEq] at h
  | ok c =>
    simp only [hopen] at h
    cases hq : b.queue? name with
    | none => simp only [hq, reduceCtorEq] at h
    | some q =>
      simp only [hq, Change.start.injEq] at h
      obtain ⟨_, rfl, _⟩ := h
      rfl

/-- A consumer that is started belongs to an open channel. -/
theorem isOpen_of_start {id : Nat} {s : Consumer} {name : Value} {e : Event}
    (h : e.change b = .start id s name) : b.IsOpen s.channel := by
  obtain ⟨options, rfl, _⟩ := change_eq_start h
  simp only [Event.change] at h
  cases hopen : b.openChannel s.channel with
  | error fault => simp only [hopen, reduceCtorEq] at h
  | ok c => exact ⟨c, hopen⟩

/-- A consumer stays what it is, and a new one has the channel and the number of the request and the
mode of its options. -/
theorem Serves.step {known' : Nat → Nat → AckMode → Prop} (h : b.Serves known) (hnamed : b.Named)
    {e : Event} (hkept : ∀ ch number mode, known ch number mode → known' ch number mode)
    (hnew : ∀ ch number name options, e = .request ch number (.basicConsume name options) →
      b.IsOpen ch → known' ch number (modeOf options)) :
    (b.step e).broker.Serves known' := by
  intro q' hq' s hs
  rcases exists_of_mem_step hnamed hq' with ⟨q, hq, hremains⟩ | hadded
  · rcases Change.consumers_of_remains hremains with hsub | ⟨s₀, name, hk, hmore⟩
    · exact hkept _ _ _ (h q hq s (hsub.subset hs))
    · have hs : s ∈ q'.shell.consumers := hs
      rw [hmore] at hs
      rcases List.mem_append.mp hs with hs | hs
      · exact hkept _ _ _ (h q hq s hs)
      · obtain rfl := List.mem_singleton.mp hs
        have hopen := isOpen_of_start hk
        obtain ⟨options, rfl, _⟩ := change_eq_start hk
        rw [mode_of_start hk]
        exact hnew _ _ _ _ rfl hopen
  · have hnone : q'.consumers = [] := ((turn_step b e).of_added hadded).2.2.1
    rw [hnone] at hs
    cases hs

/-! ## Openings -/

/-- What comes of an attempt to open a channel. -/
inductive Opening (b : Broker) (r : Response) : Prop where
  | refused {thrown : Value} (ho : r.outcome = .threw thrown)
      (htallies : r.broker.tallies = b.tallies)
  | made {reply : Value} (ho : r.outcome = .replied reply)
      (htallies : r.broker.tallies = b.tallies ++ [({} : Tally)])

theorem opening_openNext (b : Broker) : Opening b b.openNext := by
  cases hrefusal : b.refusal with
  | some error =>
    simp only [openNext, hrefusal]
    exact .refused rfl rfl
  | none =>
    simp only [openNext, hrefusal]
    exact .made rfl List.map_append

/-- Nobody is told of it. -/
theorem effects_openNext (b : Broker) : b.openNext.effects = [] := by
  rw [openNext]
  split <;> rfl

/-! ## Requests -/

/-- A closed channel is asked for something else than its end: nothing comes of it. -/
theorem request_of_closed {fault : Fault} (hclosed : b.openChannel ch = .error fault)
    {p : Amqp.Channel.Primitive} (hend : ¬p.IsEnd) :
    b.request ch number p = { broker := b, outcome := .threw fault.thrown } := by
  simp only [request, hclosed]
  cases p with
  | close | abort => exact absurd trivial hend
  | _ => rfl

/-- An operation that may be refused leaves the tallies alone if it does where it is carried
out. -/
theorem tallies_attempt {r : Except Fault (Broker × Value)}
    (hok : ∀ b' v, r = .ok (b', v) → b'.tallies = b.tallies) :
    (b.attempt r).broker.tallies = b.tallies := by
  cases r with
  | error fault => rfl
  | ok p => exact hok p.1 p.2 rfl

theorem tallies_declareQueueSpec (b : Broker) (spec : Option Value) :
    (b.declareQueueSpec spec).broker.tallies = b.tallies := by
  have hone (b : Broker) (name : Value) (flags : QueueFlags) :
      (b.attempt (b.declareQueue name flags)).broker.tallies = b.tallies := by
    rcases declareQueue_cases b name flags with ⟨_, hsame⟩ | ⟨_, hadded⟩
    · rw [hsame]
    · rw [hadded]
      rfl
  simp only [declareQueueSpec]
  split
  · exact hone b _ _
  · exact hone b.issue _ _

theorem tallies_declareExchange {spec reply : Value}
    (h : b.declareExchange spec = .ok (b', reply)) : b'.tallies = b.tallies := by
  simp only [declareExchange, Bind.bind, Except.bind] at h
  split at h
  · cases h
  · split at h
    · cases h
    · split at h
      · split at h
        · cases h
          rfl
        · cases h
      · cases h
        rfl

theorem tallies_bind {queueName exchangeName key reply : Value}
    (h : b.bind queueName exchangeName key = .ok (b', reply)) : b'.tallies = b.tallies := by
  simp only [Broker.bind, Bind.bind, Except.bind] at h
  split at h
  · cases h
  · split at h
    · cases h
    · cases h
      rfl

theorem tallies_deleteExchange {name reply : Value}
    (h : b.deleteExchange name = .ok (b', reply)) : b'.tallies = b.tallies := by
  simp only [deleteExchange, Bind.bind, Except.bind] at h
  split at h
  · cases h
  · cases h
    rfl

theorem tallies_purge {name reply : Value} (h : b.purge name = .ok (b', reply)) :
    b'.tallies = b.tallies := by
  simp only [purge, Bind.bind, Except.bind] at h
  split at h
  · cases h
  · cases h
    rfl

theorem tallies_consume {name options reply : Value}
    (h : b.consume ch number name options = .ok (b', reply)) : b'.tallies = b.tallies := by
  simp only [consume, Bind.bind, Except.bind] at h
  split at h
  · cases h
  · cases h
    split <;> exact tallies_modifyChannel_of_eq (by exact fun _ => rfl)

theorem tallies_copyTo (b : Broker) (c : Copy) (names : List Value) :
    (b.copyTo c names).1.tallies = b.tallies := by
  induction names generalizing b with
  | nil => rfl
  | cons name names ih =>
    rw [copyTo]
    cases b.queue name with
    | error fault => rfl
    | ok q => exact ih (b.append q c)

theorem tallies_publish (b : Broker) (exchangeName key properties body : Value) :
    (b.publish exchangeName key properties body).broker.tallies = b.tallies := by
  simp only [broker_publish, route]
  cases b.targets exchangeName key with
  | error fault => rfl
  | ok names => exact tallies_copyTo ..

theorem tallies_cancel (b : Broker) (ch : Nat) (c : Channel) (tag : Value) :
    (b.cancel ch c tag).tallies = b.tallies := by
  simp only [cancel]
  split
  · rw [tallies, channels_removeConsumer]
    exact tallies_modifyChannel_of_eq (by exact fun _ => rfl)
  · rfl

theorem tallies_deleteQueue (b : Broker) (name : Value) :
    (b.deleteQueue name).broker.tallies = b.tallies := by
  simp only [deleteQueue]
  cases b.queue name with
  | error fault => rfl
  | ok q => exact tallies_forget (b.removeQueue q.id) _

/-- The effect tells a consumer that it is cancelled. -/
def Effect.isCancellation : Effect → Bool
  | .cancelled .. => true
  | _ => false

/-- What comes of a request that only consumers hear of. -/
structure Aside (b : Broker) (r : Response) : Prop where
  effects : ∀ f ∈ r.effects, f.isCancellation = true
  tallies : r.broker.tallies = b.tallies

/-- A request that neither ends the channel nor settles something leaves the tallies alone. -/
theorem aside_request {p : Amqp.Channel.Primitive} (hend : ¬p.IsEnd) (hsettle : ¬p.IsSettlement) :
    Aside b (b.request ch number p) := by
  cases hopen : b.openChannel ch with
  | error fault =>
    rw [request_of_closed hopen hend]
    exact ⟨List.forall_mem_nil _, rfl⟩
  | ok c =>
    have hattempt {r : Except Fault (Broker × Value)}
        (hok : ∀ b' v, r = .ok (b', v) → b'.tallies = b.tallies) : Aside b (b.attempt r) := by
      refine ⟨?_, tallies_attempt hok⟩
      cases r <;> exact List.forall_mem_nil _
    simp only [request, hopen]
    cases p with
    | close | abort => exact absurd trivial hend
    | basicAck | basicNack => exact absurd trivial hsettle
    | queueDeclare spec =>
      refine ⟨?_, tallies_declareQueueSpec b spec⟩
      simp only [perform, declareQueueSpec, attempt]
      split <;> split <;> exact List.forall_mem_nil _
    | exchangeDeclare spec => exact hattempt fun _ _ => tallies_declareExchange
    | queueBind queueName exchangeName key => exact hattempt fun _ _ => tallies_bind
    | basicPublish exchangeName key properties body =>
      refine ⟨?_, tallies_publish ..⟩
      simp only [perform, publish]
      split <;> exact List.forall_mem_nil _
    | queueDelete name =>
      refine ⟨?_, tallies_deleteQueue b name⟩
      simp only [perform, deleteQueue]
      split
      · exact List.forall_mem_nil _
      · intro f hf
        obtain ⟨s, _, rfl⟩ := List.mem_map.mp hf
        rfl
    | exchangeDelete name => exact hattempt fun _ _ => tallies_deleteExchange
    | queuePurge name => exact hattempt fun _ _ => tallies_purge
    | basicConsume name options => exact hattempt fun _ _ => tallies_consume
    | basicCancel tag => exact ⟨List.forall_mem_nil _, tallies_cancel b ch c tag⟩
    | basicQos count isGlobal =>
      exact ⟨List.forall_mem_nil _, tallies_modifyChannel_of_eq (by exact fun _ => rfl)⟩

/-- What a settlement leaves waiting. -/
theorem tags_settle (c : Channel) (n : Nat) (multiple : Bool) :
    (c.tally.settle n multiple).tags =
      (c.unacked.filter fun e => !decide (Covers n multiple e.1)).map (·.1) := by
  rw [Tally.settle, Channel.tally, List.filter_map]
  rfl

/-- A settlement that is carried out settles what it covers. -/
theorem tallies_settle {n : Nat} {multiple : Bool} {us : List Unacked}
    (h : b.settle ch (.assigned n) multiple = .ok (b', us)) :
    b'.tallies = b.tallies.modify ch (·.settle n multiple) := by
  simp only [settle, Bind.bind, Except.bind] at h
  cases hopen : b.openChannel ch with
  | error fault => simp only [hopen, reduceCtorEq] at h
  | ok c =>
    obtain ⟨hc, _⟩ := openChannel_eq_ok.mp hopen
    simp only [hopen, Tag.number?, Option.bind_some] at h
    cases hfind : c.unacked.find? (·.1 == n) with
    | none => simp only [hfind, reduceCtorEq] at h
    | some entry =>
      obtain rfl : entry.1 = n := by simpa using List.find?_some hfind
      have htallies {rest : List (Nat × Unacked)}
          (hrest : rest = c.unacked.filter fun e => !decide (Covers entry.1 multiple e.1)) :
          (b.modifyChannel ch fun c => { c with unacked := rest }).tallies =
            b.tallies.modify ch (·.settle entry.1 multiple) := by
        refine tallies_modifyChannel fun c' hc' => ?_
        obtain rfl := Option.some.inj (hc'.symm.trans hc)
        subst hrest
        simp only [Channel.tally, ← tags_settle]
        rfl
      simp only [hfind] at h
      cases multiple with
      | false =>
        cases h
        refine htallies (List.filter_congr fun e _ => ?_)
        rw [Bool.eq_iff_iff]
        simp [Covers]
      | true =>
        cases h
        refine htallies ?_
        rw [List.filter_filter]
        refine List.filter_congr fun e _ => ?_
        rw [Bool.eq_iff_iff]
        simp [Covers, and_comm]

/-- What comes of a settlement that a channel is asked for: it is accepted, and settles what it
covers, or refused, and changes nothing. -/
inductive Settled (b : Broker) (ch n : Nat) (multiple : Bool) (r : Response) : Prop where
  | accepted {reply : Value} (ho : r.outcome = .replied reply) (heffects : r.effects = [])
      (htallies : r.broker.tallies = b.tallies.modify ch (·.settle n multiple))
  | refused {thrown : Value} (ho : r.outcome = .threw thrown) (heffects : r.effects = [])
      (htallies : r.broker.tallies = b.tallies)

/-- A settlement is accepted or refused. -/
theorem settled_request (b : Broker) (ch number n : Nat) (s : Settlement)
    (multiple requeue : Value) :
    Settled b ch n multiple.isTruthy
      (b.request ch number (Request.settlePrimitive s n multiple requeue)) := by
  have hend : ¬(Request.settlePrimitive s n multiple requeue).IsEnd := by
    cases s <;> exact fun h => h
  cases hopen : b.openChannel ch with
  | error fault =>
    rw [request_of_closed hopen hend]
    exact .refused rfl rfl rfl
  | ok c =>
    have hone {g : Broker × List Unacked → Broker × Value}
        (hg : ∀ p, (g p).1.tallies = p.1.tallies) :
        Settled b ch n multiple.isTruthy
          (b.attempt ((b.settle ch (.assigned n) multiple.isTruthy).map g)) := by
      cases h : b.settle ch (.assigned n) multiple.isTruthy with
      | error fault => exact .refused rfl rfl rfl
      | ok p => exact .accepted rfl rfl ((hg p).trans (tallies_settle h))
    simp only [request, hopen]
    cases s with
    | acknowledge => exact hone fun _ => rfl
    | reject =>
      refine hone fun p => ?_
      cases requeue.isTruthy with
      | false => rfl
      | true =>
        simp only [if_true, tallies, channels_requeue]

/-! ## Requests that end a channel -/

/-- The parameters of a primitive that ends a channel have texts. -/
def IsWorded : Amqp.Channel.Primitive → Prop
  | .close params => (callText "close" params).isOk = true
  | .abort params => (callText "abort" params).isOk = true
  | _ => True

theorem tallies_note (b : Broker) (ch : Nat) (text : String) :
    (b.modifyChannel ch fun c => { c with calls := c.calls ++ [text] }).tallies = b.tallies :=
  tallies_modifyChannel_of_eq fun _ => rfl

/-- What comes of a request that ends a channel: the channel ends, or it has ended before. -/
inductive Ending (b : Broker) (ch : Nat) (r : Response) : Prop where
  | ended {reply : Value} (hopen : ∀ t, b.tallies[ch]? = some t → t.closed = false)
      (ho : r.outcome = .replied reply) (heffects : r.effects = [.lost ch none])
      (htallies : r.broker.tallies = b.tallies.modify ch .ended)
  | refused {thrown : Value} (hclosed : ∀ t, b.tallies[ch]? = some t → t.closed = true)
      (ho : r.outcome = .threw thrown) (heffects : r.effects = [])
      (htallies : r.broker.tallies = b.tallies)

/-- A channel that is asked for its end, with parameters that have texts, ends or has ended. -/
theorem ending_endChannel {verb : String} {params : Option Value}
    (hworded : (callText verb params).isOk = true) : Ending b ch (b.endChannel ch verb params) := by
  cases htext : callText verb params with
  | error thrown =>
    rw [htext] at hworded
    cases hworded
  | ok text =>
    have hnoted :
        (b.modifyChannel ch fun c => { c with calls := c.calls ++ [text] }).openChannel ch =
          (b.openChannel ch).map fun c => { c with calls := c.calls ++ [text] } :=
      openChannel_modifyChannel fun _ => rfl
    cases hopen : b.openChannel ch with
    | error fault =>
      rw [hopen] at hnoted
      have hclosed (t : Tally) (ht : b.tallies[ch]? = some t) : t.closed = true := by
        obtain ⟨c, hc, rfl⟩ := exists_tally_eq ht
        exact closed_of_openChannel hopen hc
      simp only [endChannel, htext, hnoted, Except.map]
      exact .refused hclosed rfl rfl (tallies_note b ch text)
    | ok c =>
      rw [hopen] at hnoted
      have hopen' (t : Tally) (ht : b.tallies[ch]? = some t) : t.closed = false :=
        IsOpen.closed_eq ⟨c, hopen⟩ ht
      obtain ⟨htallies, heffects⟩ := terminate_of_open hnoted none
      simp only [endChannel, htext, hnoted, Except.map]
      refine .ended hopen' rfl heffects (htallies.trans ?_)
      rw [tallies_note]

theorem ending_request {p : Amqp.Channel.Primitive} (hend : p.IsEnd) (hworded : IsWorded p) :
    Ending b ch (b.request ch number p) := by
  cases p with
  | close | abort =>
    have hended : Ending b ch (b.endChannel ch _ _) := ending_endChannel hworded
    simp only [request]
    cases b.openChannel ch <;> exact hended
  | _ => exact hend.elim

end Amqp.Broker
