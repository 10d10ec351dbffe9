import Amqp.Proofs.Client.Register
import Amqp.Proofs.Gathered
import Mathlib.Data.List.Induction

/-!
# Which consumers an adapter lists

A consumer gets its number when it is asked for and its tag when the client replies. Until then the
adapter knows it by the tag that was wished for. What the adapter lists is told by the history
alone: a tag is listed exactly if a consumer was started with it and nothing has dropped the tag
since, where a cancel drops the tag by which the adapter knows its consumer at that moment.
-/

namespace Amqp.Client

namespace Adapter

/-- The adapter after a run. -/
def reached (events : List Event) : Adapter := (({} : Adapter).run events).1

/-- The tags wished for the consumers that a run asks for, in order. -/
def wishes (events : List Event) : List Value := events.filterMap Event.wish?

/-- A call has asked for a primitive after the events `u`, and the client has not answered it. -/
def InFlight (events : List Event) (call : Nat) (p : Channel.Primitive) (u : List Event) : Prop :=
  ∃ v, events = u ++ .issue call p :: v ∧ ∀ outcome, .answered call outcome ∉ v

/-- With the event the client tells the tag of the consumer with the number `k`. -/
def Starts (events : List Event) (e : Event) (k : Nat) (t : String) : Prop :=
  ∃ call queue options u reply, InFlight events call (.basicConsume queue options) u ∧
    (wishes u).length = k ∧ e = .answered call (.replied reply) ∧
      reply.read "consumerTag" = .ok (.text t)

/-- With the event the client accepts to cancel the consumer of a tag. -/
def Accepts (events : List Event) (e : Event) (t : String) : Prop :=
  ∃ call u reply, InFlight events call (.basicCancel (.text t)) u ∧
    e = .answered call (.replied reply)

/-- The consumer was started with the tag. -/
def Given (events : List Event) (k : Nat) (t : String) : Prop :=
  ∃ u e v, events = u ++ e :: v ∧ Starts u e k t

/-- The adapter knows the consumer by the tag: it is the one given, or the one wished for as long as
none is given. -/
def Knows (events : List Event) (k : Nat) (t : String) : Prop :=
  Given events k t ∨ (wishes events)[k]? = some (.text t) ∧ ∀ t', ¬Given events k t'

/-- The event drops a tag: the server cancels the consumer that the adapter knows by it, or accepts
to cancel it. -/
def Drops (events : List Event) (e : Event) (t : String) : Prop :=
  (∃ k, e = .dropped k ∧ Knows events k t) ∨ Accepts events e t

/-- The consumer was started with the tag, and nothing has dropped the tag since. -/
def Lasts (events : List Event) (k : Nat) (t : String) : Prop :=
  ∃ u e v, events = u ++ e :: v ∧ Starts u e k t ∧
    ∀ w f x, v = w ++ f :: x → ¬Drops (u ++ e :: w) f t

/-- Every call has a number of its own, all tags are texts, and no tag is given twice. -/
structure Worded (events : List Event) : Prop where
  numbered : (events.filterMap Event.issued?).Nodup
  wishes : ∀ call queue options, .issue call (.basicConsume queue options) ∈ events →
    ∃ t, Event.wish? (.issue call (.basicConsume queue options)) = some (.text t)
  cancels : ∀ call tag, .issue call (.basicCancel tag) ∈ events → ∃ t, tag = .text t
  replies : ∀ u call reply v queue options w tag,
    events = u ++ .answered call (.replied reply) :: v →
      InFlight u call (.basicConsume queue options) w →
        reply.read "consumerTag" = .ok tag → ∃ t, tag = .text t
  distinct : ∀ k k' t, Given events k t → Given events k' t → k = k'

variable {a : Adapter} {e : Event} {u v w events : List Event} {call k : Nat} {t : String}
  {p : Channel.Primitive}

/-! ## The history, event by event -/

theorem InFlight.concat_iff : InFlight (events ++ [e]) call p u ↔
    (u = events ∧ e = .issue call p) ∨
      InFlight events call p u ∧ ∀ outcome, e ≠ .answered call outcome := by
  constructor
  · rintro ⟨v, hsplit, hunanswered⟩
    rcases concat_eq_append_cons_iff.mp hsplit with ⟨rfl, rfl, rfl⟩ | ⟨w, rfl, rfl⟩
    · exact .inl ⟨rfl, rfl⟩
    · refine .inr ⟨⟨w, rfl, fun o ho => hunanswered o (List.mem_append_left _ ho)⟩, fun o ho => ?_⟩
      exact hunanswered o (by simp [ho])
  · rintro (⟨rfl, rfl⟩ | ⟨⟨v, rfl, hunanswered⟩, he⟩)
    · exact ⟨[], rfl, fun _ => List.not_mem_nil⟩
    · refine ⟨v ++ [e], by simp, fun o ho => ?_⟩
      rcases List.mem_append.mp ho with ho | ho
      · exact hunanswered o ho
      · exact he o (List.mem_singleton.mp ho).symm

theorem InFlight.mem (h : InFlight events call p u) : .issue call p ∈ events := by
  obtain ⟨v, rfl, -⟩ := h
  simp

theorem Given.concat_iff :
    Given (events ++ [e]) k t ↔ Given events k t ∨ Starts events e k t := by
  constructor
  · rintro ⟨u, f, v, hsplit, hstarts⟩
    rcases concat_eq_append_cons_iff.mp hsplit with ⟨rfl, rfl, -⟩ | ⟨w, -, rfl⟩
    · exact .inr hstarts
    · exact .inl ⟨u, f, w, rfl, hstarts⟩
  · rintro (⟨u, f, v, rfl, hstarts⟩ | hstarts)
    · exact ⟨u, f, v ++ [e], by simp, hstarts⟩
    · exact ⟨events, e, [], rfl, hstarts⟩

theorem Lasts.concat_iff : Lasts (events ++ [e]) k t ↔
    Starts events e k t ∨ Lasts events k t ∧ ¬Drops events e t := by
  constructor
  · rintro ⟨u, f, v, hsplit, hstarts, hlasts⟩
    rcases concat_eq_append_cons_iff.mp hsplit with ⟨rfl, rfl, -⟩ | ⟨w, rfl, rfl⟩
    · exact .inl hstarts
    · refine .inr ⟨⟨u, f, w, rfl, hstarts, fun x g y hw => ?_⟩, hlasts w e [] rfl⟩
      exact hlasts x g (y ++ [e]) (by rw [hw]; simp)
  · rintro (hstarts | ⟨⟨u, f, v, rfl, hstarts, hlasts⟩, hdrops⟩)
    · exact ⟨events, e, [], rfl, hstarts, fun _ _ _ h => absurd h (by simp)⟩
    · refine ⟨u, f, v ++ [e], by simp, hstarts, fun w g x hw => ?_⟩
      rcases concat_eq_append_cons_iff.mp hw with ⟨rfl, rfl, -⟩ | ⟨y, -, rfl⟩
      · exact hdrops
      · exact hlasts w g y rfl

theorem Given.append (h : Given u k t) (v : List Event) : Given (u ++ v) k t := by
  obtain ⟨w, e, x, rfl, hstarts⟩ := h
  exact ⟨w, e, x ++ v, by simp, hstarts⟩

theorem Worded.of_append (h : Worded (u ++ v)) : Worded u where
  numbered := by
    have hn := h.numbered
    rw [List.filterMap_append] at hn
    exact hn.of_append_left
  wishes call queue options hmem := h.wishes call queue options (List.mem_append_left v hmem)
  cancels call tag hmem := h.cancels call tag (List.mem_append_left v hmem)
  replies w call reply x queue options y tag hsplit :=
    h.replies w call reply (x ++ v) queue options y tag (by rw [hsplit]; simp)
  distinct k k' t hk hk' := h.distinct k k' t (hk.append v) (hk'.append v)

/-- A call with a number of its own asks for one primitive, at one moment of a run. -/
theorem InFlight.unique {p' : Channel.Primitive} {u' w' x x' : List Event}
    (hn : (events.filterMap Event.issued?).Nodup) (hsplit : events = u ++ x)
    (h : InFlight u call p w) (hsplit' : events = u' ++ x') (h' : InFlight u' call p' w') :
    w = w' ∧ p = p' := by
  obtain ⟨v, rfl, -⟩ := h
  obtain ⟨v', rfl, -⟩ := h'
  rw [List.append_assoc, List.cons_append] at hsplit hsplit'
  rw [hsplit] at hn hsplit'
  obtain ⟨rfl, he, -⟩ := append_cons_unique hn rfl rfl hsplit'
  exact ⟨rfl, (Event.issue.inj he).2⟩

/-- The consumers are told apart by when they are asked for. -/
theorem append_cons_of_length_wishes {u' v' : List Event} {e' : Event}
    (he : e.wish?.isSome = true) (he' : e'.wish?.isSome = true)
    (hlength : (wishes u).length = (wishes u').length) (h : u ++ e :: v = u' ++ e' :: v') :
    u = u' ∧ e = e' ∧ v = v' := by
  have hlonger {x y : List Event} {f : Event} (hf : f.wish?.isSome = true) :
      (wishes x).length ≠ (wishes (x ++ f :: y)).length := by
    obtain ⟨w, hw⟩ := Option.isSome_iff_exists.mp hf
    simp only [wishes, List.filterMap_append, List.filterMap_cons_some hw, List.length_append,
      List.length_cons]
    omega
  rcases append_cons_cases h with ⟨w, rfl, -⟩ | hsame | ⟨w, rfl, -⟩
  · exact absurd hlength (hlonger he)
  · exact hsame
  · exact absurd hlength.symm (hlonger he')

theorem Worded.text_of_mem_wishes (h : Worded events) {x : Value}
    (hx : x ∈ Adapter.wishes events) : ∃ t, x = .text t := by
  obtain ⟨e, he, hwish⟩ := List.mem_filterMap.mp hx
  cases e with
  | issue call p =>
    cases p with
    | basicConsume queue options =>
      obtain ⟨t, ht⟩ := h.wishes call queue options he
      exact ⟨t, Option.some_inj.mp (hwish.symm.trans ht)⟩
    | _ => cases hwish
  | _ => cases hwish

theorem Worded.readable (h : Worded (events ++ [e])) {queue options : Value}
    (he : e = .issue call (.basicConsume queue options)) :
    ∃ tag, options.read "consumerTag" = .ok tag := by
  obtain ⟨t, ht⟩ := h.wishes call queue options (by simp [he])
  obtain ⟨tag, htag, -⟩ := Option.map_eq_some_iff.mp ht
  cases hread : options.read "consumerTag" with
  | error fault => rw [hread] at htag; cases htag
  | ok tag => exact ⟨tag, rfl⟩

theorem Worded.wish_isSome (h : Worded events) {queue options : Value}
    (hcall : InFlight events call (.basicConsume queue options) u) :
    (Event.wish? (.issue call (.basicConsume queue options))).isSome = true := by
  obtain ⟨t, ht⟩ := h.wishes call queue options hcall.mem
  rw [ht]
  rfl

/-- A consumer is started once. -/
theorem Given.not_starts (hw : Worded events) (h : Given events k t) {t' : String} :
    ¬Starts events e k t' := by
  rintro ⟨call', queue', options', u', reply', hflight', hk', -, -⟩
  obtain ⟨x, f, y, rfl, call, queue, options, u, reply, hflight, hk, rfl, -⟩ := h
  have hsome := hw.of_append.wish_isSome hflight
  have hsome' := hw.wish_isSome hflight'
  obtain ⟨v, rfl, -⟩ := hflight
  obtain ⟨v', hsplit, hunanswered⟩ := hflight'
  rw [List.append_assoc, List.cons_append] at hsplit
  obtain ⟨-, he, rfl⟩ := append_cons_of_length_wishes hsome hsome' (hk.trans hk'.symm) hsplit
  refine hunanswered (.replied reply) ?_
  rw [← (Event.issue.inj he).1]
  simp

/-- A reply starts one consumer, with one tag. -/
theorem Starts.unique (hn : (events.filterMap Event.issued?).Nodup) (h : Starts events e k t)
    {k' : Nat} {t' : String} (h' : Starts events e k' t') : k = k' ∧ t = t' := by
  obtain ⟨call, queue, options, u, reply, hflight, rfl, rfl, hread⟩ := h
  obtain ⟨call', queue', options', u', reply', hflight', rfl, he, hread'⟩ := h'
  obtain ⟨rfl, ho⟩ := Event.answered.inj he
  obtain rfl := Channel.Outcome.replied.inj ho
  have hnil := (List.append_nil events).symm
  refine ⟨by rw [(InFlight.unique hn hnil hflight hnil hflight').1], ?_⟩
  exact Value.text.inj (Except.ok.inj (hread.symm.trans hread'))

theorem Given.unique (hw : Worded events) (h : Given events k t) {t' : String}
    (h' : Given events k t') : t = t' := by
  induction events using List.reverseRecOn with
  | nil =>
    obtain ⟨u, f, v, hsplit, -⟩ := h
    simp at hsplit
  | append_singleton u e ih =>
    have hu := hw.of_append
    rcases Given.concat_iff.mp h with hbefore | hstarts
    · rcases Given.concat_iff.mp h' with hbefore' | hstarts'
      · exact ih hu hbefore hbefore'
      · exact absurd hstarts' (hbefore.not_starts hu)
    · rcases Given.concat_iff.mp h' with hbefore' | hstarts'
      · exact absurd hstarts (hbefore'.not_starts hu)
      · exact (hstarts.unique hu.numbered hstarts').2

/-! ## Runs -/

theorem run_eq_played (a : Adapter) (events : List Event) :
    a.run events = played step a events := by
  induction events generalizing a with
  | nil => rfl
  | cons e events ih =>
    simp only [run, ih]
    rfl

theorem reached_concat (u : List Event) (e : Event) :
    reached (u ++ [e]) = ((reached u).step e).1 := by
  rw [reached, run_eq_played, played_concat, ← run_eq_played]
  rfl

/-- The adapter remembers which calls about consumers are in flight, and the tag of each
consumer. -/
structure Faithful (events : List Event) : Prop where
  numbered : ((reached events).pending.map (·.id)).Sublist (events.filterMap Event.issued?)
  waits : ∀ call p k, concernsConsumers p = true → (⟨call, p, k⟩ ∈ (reached events).pending ↔
    ∃ u, InFlight events call p u ∧ k = number (Adapter.wishes u).length p)
  length : (reached events).names.length = (Adapter.wishes events).length
  given : ∀ k t, Given events k t → (reached events).names[k]? = some (.text t)
  wished : ∀ k, (∀ t, ¬Given events k t) →
    (reached events).names[k]? = (Adapter.wishes events)[k]?

theorem Faithful.call?_eq_some_iff (h : Faithful events) (hw : Worded events)
    (hp : concernsConsumers p = true) :
    (reached events).call? call = some ⟨call, p, k⟩ ↔
      ∃ u, InFlight events call p u ∧ k = number (Adapter.wishes u).length p := by
  rw [← h.waits call p k hp, call?,
    find?_eq_some_iff_of_nodup (h.numbered.nodup hw.numbered)]
  simp

/-- A reply starts a consumer if its call is in flight. -/
theorem Faithful.of_begins? (h : Faithful events) (hw : Worded events) {s : Started}
    (hs : (reached events).begins? e = some s) : ∃ call queue options u reply,
      InFlight events call (.basicConsume queue options) u ∧
        (Adapter.wishes u).length = s.consumer ∧ e = .answered call (.replied reply) ∧
          reply.read "consumerTag" = .ok s.tag := by
  cases e with
  | answered call outcome =>
    cases outcome with
    | threw => cases hs
    | replied reply =>
      obtain ⟨⟨id, q, consumer⟩, hcall, hs⟩ := Option.bind_eq_some_iff.mp hs
      obtain rfl : id = call := by simpa using List.find?_some hcall
      cases q with
      | basicConsume queue options =>
        obtain ⟨u, hflight, rfl⟩ := (h.call?_eq_some_iff hw rfl).mp hcall
        obtain ⟨tag, htag, rfl⟩ := Option.map_eq_some_iff.mp hs
        refine ⟨_, queue, options, u, reply, hflight, rfl, rfl, ?_⟩
        cases hread : reply.read "consumerTag" with
        | error fault => rw [hread] at htag; cases htag
        | ok tag' => rw [hread] at htag; rw [← Option.some_inj.mp htag]
      | _ => cases hs
  | _ => cases hs

theorem Faithful.begins?_iff (h : Faithful events) (hw : Worded events) :
    (reached events).begins? e = some ⟨.text t, k⟩ ↔ Starts events e k t := by
  constructor
  · exact h.of_begins? hw
  · rintro ⟨call, queue, options, u, reply, hflight, rfl, rfl, hread⟩
    have hcall := (h.call?_eq_some_iff hw rfl).mpr ⟨u, hflight, rfl⟩
    simp [begins?, hcall, hread, Except.toOption, number]

theorem Faithful.begins?_text (h : Faithful events) (hw : Worded (events ++ [e])) {s : Started}
    (hs : (reached events).begins? e = some s) : ∃ t, s.tag = .text t := by
  obtain ⟨call, queue, options, u, reply, hflight, -, rfl, hread⟩ := h.of_begins? hw.of_append hs
  exact hw.replies events call reply [] queue options u s.tag rfl hflight hread

theorem Faithful.knows_iff (h : Faithful events) (hw : Worded events) :
    (reached events).names[k]? = some (.text t) ↔ Knows events k t := by
  by_cases hgiven : ∃ t', Given events k t'
  · obtain ⟨t', ht'⟩ := hgiven
    rw [h.given k t' ht']
    constructor
    · rintro heq
      obtain rfl := Value.text.inj (Option.some_inj.mp heq)
      exact .inl ht'
    · rintro (ht | ⟨-, hnone⟩)
      · rw [ht.unique hw ht']
      · exact absurd ht' (hnone t')
  · have hnone : ∀ t', ¬Given events k t' := fun t' ht' => hgiven ⟨t', ht'⟩
    rw [h.wished k hnone]
    constructor
    · exact fun hwish => .inr ⟨hwish, hnone⟩
    · rintro (ht | ⟨hwish, -⟩)
      · exact absurd ht (hnone t)
      · exact hwish

theorem Faithful.ends?_iff (h : Faithful events) (hw : Worded events) :
    (reached events).ends? e = some (.text t) ↔ Drops events e t := by
  constructor
  · intro hs
    cases e with
    | answered call outcome =>
      cases outcome with
      | threw => cases hs
      | replied reply =>
        obtain ⟨⟨id, q, consumer⟩, hcall, hs⟩ := Option.bind_eq_some_iff.mp hs
        obtain rfl : id = call := by simpa using List.find?_some hcall
        cases q with
        | basicCancel tag =>
          obtain ⟨u, hflight, -⟩ := (h.call?_eq_some_iff hw rfl).mp hcall
          obtain rfl := Option.some_inj.mp hs
          exact .inr ⟨_, u, reply, hflight, rfl⟩
        | _ => cases hs
    | dropped consumer => exact .inl ⟨consumer, rfl, (h.knows_iff hw).mp hs⟩
    | _ => cases hs
  · rintro (⟨k, rfl, hknows⟩ | ⟨call, u, reply, hflight, rfl⟩)
    · exact (h.knows_iff hw).mpr hknows
    · have hcall := (h.call?_eq_some_iff hw rfl).mpr ⟨u, hflight, rfl⟩
      simp [ends?, hcall]

theorem Faithful.ends?_text (h : Faithful events) (hw : Worded events) {x : Value}
    (hx : (reached events).ends? e = some x) : ∃ t, x = .text t := by
  cases e with
  | answered call outcome =>
    cases outcome with
    | threw => cases hx
    | replied reply =>
      obtain ⟨⟨id, q, consumer⟩, hcall, hs⟩ := Option.bind_eq_some_iff.mp hx
      obtain rfl : id = call := by simpa using List.find?_some hcall
      cases q with
      | basicCancel tag =>
        obtain ⟨u, hflight, -⟩ := (h.call?_eq_some_iff hw rfl).mp hcall
        obtain rfl := Option.some_inj.mp hs
        exact hw.cancels id tag hflight.mem
      | _ => cases hs
  | dropped consumer =>
    by_cases hgiven : ∃ t, Given events consumer t
    · obtain ⟨t, ht⟩ := hgiven
      exact ⟨t, Option.some_inj.mp (hx.symm.trans (h.given consumer t ht))⟩
    · have hwish := h.wished consumer fun t ht => hgiven ⟨t, ht⟩
      exact hw.text_of_mem_wishes (List.mem_of_getElem? (hwish.symm.trans hx))
  | _ => cases hx

/-- The consumer that is asked for by a call in flight has been asked for. -/
theorem Worded.length_wishes_lt (h : Worded events) {queue options : Value}
    (hcall : InFlight events call (.basicConsume queue options) u) :
    (Adapter.wishes u).length < (Adapter.wishes events).length := by
  obtain ⟨w, hw⟩ := Option.isSome_iff_exists.mp (h.wish_isSome hcall)
  obtain ⟨v, rfl, -⟩ := hcall
  simp only [Adapter.wishes, List.filterMap_append, List.filterMap_cons_some hw,
    List.length_append, List.length_cons]
  omega

/-- The names change for the consumer that is started with an event, if there is one. -/
theorem Faithful.names_concat (h : Faithful events) (hw : Worded (events ++ [e])) :
    ∃ names, (reached (events ++ [e])).names = names ++ e.wish?.toList ∧
      names.length = (reached events).names.length ∧
      (∀ k t, Starts events e k t → names[k]? = some (.text t)) ∧
      ∀ k, (∀ t, ¬Starts events e k t) → names[k]? = (reached events).names[k]? := by
  have hu := hw.of_append
  refine ⟨_, by rw [reached_concat, names_step], ?_, fun k t hstarts => ?_, fun k hnone => ?_⟩
  · split
    · exact List.length_set
    · rfl
  · rw [(h.begins?_iff hu).mpr hstarts]
    obtain ⟨call, queue, options, u, reply, hflight, rfl, -⟩ := hstarts
    exact List.getElem?_set_self (h.length ▸ hu.length_wishes_lt hflight)
  · split
    · rename_i s hs
      obtain ⟨t, ht⟩ := h.begins?_text hw hs
      obtain ⟨tag, consumer⟩ := s
      obtain rfl : tag = .text t := ht
      refine List.getElem?_set_ne fun hk => hnone t ?_
      exact hk ▸ (h.begins?_iff hu).mp hs
    · rfl

theorem Faithful.concat (h : Faithful events) (hw : Worded (events ++ [e])) :
    Faithful (events ++ [e]) := by
  have hu := hw.of_append
  have hwishes : Adapter.wishes (events ++ [e]) = Adapter.wishes events ++ e.wish?.toList := by
    rw [Adapter.wishes, List.filterMap_append]
    cases hwish : e.wish? <;> simp [Adapter.wishes, hwish]
  obtain ⟨names, hnames, hlength, hstarts, hother⟩ := h.names_concat hw
  refine ⟨?_, fun call p k hp => ?_, ?_, fun k t hgiven => ?_, fun k hnone => ?_⟩
  · rw [reached_concat, List.filterMap_append]
    refine (pending_sublist_step _ e).trans (h.numbered.append ?_)
    cases hissued : e.issued? <;> simp [hissued]
  · rw [reached_concat, mem_pending_step hp fun _ _ _ he => hw.readable he, h.waits call p k hp,
      h.length]
    simp only [InFlight.concat_iff]
    constructor
    · rintro (⟨rfl, rfl⟩ | ⟨⟨u, hflight, rfl⟩, hne⟩)
      · exact ⟨events, .inl ⟨rfl, rfl⟩, rfl⟩
      · exact ⟨u, .inr ⟨hflight, hne⟩, rfl⟩
    · rintro ⟨u, ⟨rfl, rfl⟩ | ⟨hflight, hne⟩, rfl⟩
      · exact .inl ⟨rfl, rfl⟩
      · exact .inr ⟨⟨u, hflight, rfl⟩, hne⟩
  · rw [hnames, hwishes, List.length_append, List.length_append, hlength, h.length]
  · have hname : names[k]? = some (.text t) := by
      rcases Given.concat_iff.mp hgiven with hbefore | hnow
      · rw [hother k fun t' => hbefore.not_starts hu]
        exact h.given k t hbefore
      · exact hstarts k t hnow
    rw [hnames, List.getElem?_append_left (List.getElem?_eq_some_iff.mp hname).1, hname]
  · have hname : names[k]? = (Adapter.wishes events)[k]? := by
      rw [hother k fun t hnow => hnone t (Given.concat_iff.mpr (.inr hnow))]
      exact h.wished k fun t hbefore => hnone t (Given.concat_iff.mpr (.inl hbefore))
    rw [hnames, hwishes, List.getElem?_append, List.getElem?_append, hname, hlength, h.length]

theorem faithful (h : Worded events) : Faithful events := by
  induction events using List.reverseRecOn with
  | nil =>
    refine ⟨List.nil_sublist _, fun call p k _ => ?_, rfl, ?_, fun _ _ => rfl⟩
    · constructor
      · rintro ⟨⟩
      · rintro ⟨u, ⟨v, hsplit, -⟩, -⟩
        simp at hsplit
    · rintro k t ⟨u, e, v, hsplit, -⟩
      simp at hsplit
  | append_singleton u e ih => exact (ih h.of_append).concat h

theorem nodup_tags (h : Worded events) : ((reached events).tags.map (·.tag)).Nodup := by
  induction events using List.reverseRecOn with
  | nil => exact List.nodup_nil
  | append_singleton u e ih =>
    have hu := h.of_append
    have hf := faithful hu
    rw [reached_concat]
    exact nodup_tags_step (fun _ => hf.ends?_text hu) (fun _ => hf.begins?_text h) (ih hu)

/-- A tag is listed exactly if a consumer was started with it and nothing has dropped it since. -/
theorem mem_tags_iff (h : Worded events) {x : Value} :
    x ∈ (reached events).tags.map (·.tag) ↔ ∃ k t, x = .text t ∧ Lasts events k t := by
  induction events using List.reverseRecOn with
  | nil =>
    constructor
    · rintro ⟨⟩
    · rintro ⟨k, t, -, u, e, v, hsplit, -⟩
      simp at hsplit
  | append_singleton u e ih =>
    have hu := h.of_append
    have hf := faithful hu
    rw [reached_concat, mem_tags_step (fun _ => hf.ends?_text hu) (fun _ => hf.begins?_text h),
      ih hu]
    simp only [Lasts.concat_iff]
    constructor
    · rintro (⟨⟨tag, k⟩, hs, rfl⟩ | ⟨⟨k, t, rfl, hlasts⟩, hends⟩)
      · obtain ⟨t, rfl⟩ := hf.begins?_text h hs
        exact ⟨k, t, rfl, .inl ((hf.begins?_iff hu).mp hs)⟩
      · exact ⟨k, t, rfl, .inr ⟨hlasts, fun hdrops => hends ((hf.ends?_iff hu).mpr hdrops)⟩⟩
    · rintro ⟨k, t, rfl, hstarts | ⟨hlasts, hdrops⟩⟩
      · exact .inl ⟨⟨.text t, k⟩, (hf.begins?_iff hu).mpr hstarts, rfl⟩
      · exact .inr ⟨⟨k, t, rfl, hlasts⟩, fun hends => hdrops ((hf.ends?_iff hu).mp hends)⟩

end Adapter

end Amqp.Client
