import Amqp.Proofs.Client.Consumers

/-!
# Cancels that overtake a reply

The consumers that an adapter lists should be those that were started and not cancelled, and a
cancel of the server should be reported with the tag that the broker gave. Both fail only where the
client cancels before it has told the tag: the adapter then goes by the tag that was wished for, and
the reply that comes later lists a consumer that is cancelled already.
-/

namespace Amqp.Client.Adapter

/-- The consumer was cancelled since it was asked for: by the server, or because the client accepted
to cancel its tag. -/
def Cancelled (events : List Event) (k : Nat) (t : String) : Prop :=
  ∃ u e v, events = u ++ e :: v ∧ k < (wishes u).length ∧ (e = .dropped k ∨ Accepts u e t)

/-- The tags of the consumers that were started and not cancelled are listed, each once, and no
other ones. -/
structure Exact (events : List Event) : Prop where
  nodup : ((reached events).tags.map (·.tag)).Nodup
  mem : ∀ x, x ∈ (reached events).tags.map (·.tag) ↔
    ∃ k t, x = .text t ∧ Given events k t ∧ ¬Cancelled events k t

/-- Every cancel of the server is reported with the tag that the broker gives the consumer. -/
def Reported (events : List Event) : Prop :=
  ∀ u k t v, events = u ++ .dropped k :: v → Given events k t →
    ((reached u).step (.dropped k)).2 = [.cancelled k (.text t)]

/-- The consumer was cancelled before it was started, and nothing has dropped its tag since. -/
def Overtaken (events : List Event) (k : Nat) (t : String) : Prop :=
  ∃ u e v, events = u ++ e :: v ∧ Starts u e k t ∧ Cancelled u k t ∧
    ∀ w f x, v = w ++ f :: x → ¬Drops (u ++ e :: w) f t

/-- The consumer is not cancelled, but the server has cancelled another one that the adapter knew by
the same tag. -/
def Robbed (events : List Event) (k : Nat) (t : String) : Prop :=
  ¬Cancelled events k t ∧ ∃ u e w j x, events = u ++ e :: (w ++ .dropped j :: x) ∧
    Starts u e k t ∧ j ≠ k ∧ Knows (u ++ e :: w) j t

variable {e : Event} {u v w events : List Event} {k : Nat} {t : String}

theorem Cancelled.append (h : Cancelled u k t) (v : List Event) : Cancelled (u ++ v) k t := by
  obtain ⟨w, e, x, rfl, hlt, hcancel⟩ := h
  exact ⟨w, e, x ++ v, by simp, hlt, hcancel⟩

theorem length_wishes_le (u v : List Event) : (wishes u).length ≤ (wishes (u ++ v)).length := by
  simp [wishes, List.filterMap_append]

/-- What is started has been asked for. -/
theorem Starts.lt (hw : Worded u) (h : Starts u e k t) : k < (wishes u).length := by
  obtain ⟨call, queue, options, w, reply, hflight, rfl, -⟩ := h
  exact hw.length_wishes_lt hflight

/-- A reply does not start one consumer and cancel another one. -/
theorem Starts.not_accepts (hw : Worded u) (h : Starts u e k t) {t' : String} :
    ¬Accepts u e t' := by
  rintro ⟨call', w', reply', hflight', he⟩
  obtain ⟨call, queue, options, w, reply, hflight, -, rfl, -⟩ := h
  obtain ⟨rfl, -⟩ := Event.answered.inj he
  have hnil := (List.append_nil u).symm
  cases (InFlight.unique hw.numbered hnil hflight hnil hflight').2

/-- A consumer is started at one moment. -/
theorem Starts.moment_unique {u' v' : List Event} {e' : Event} {t' : String}
    (hw : Worded (u ++ e :: v)) (h : Starts u e k t) (hsplit : u ++ e :: v = u' ++ e' :: v')
    (h' : Starts u' e' k t') : u = u' ∧ e = e' ∧ v = v' := by
  have hgiven {x y : List Event} {f : Event} {s : String} (hf : Starts x f k s) :
      Given (x ++ f :: y) k s := ⟨x, f, y, rfl, hf⟩
  rcases append_cons_cases hsplit with ⟨x, rfl, rfl⟩ | hsame | ⟨x, rfl, rfl⟩
  · rw [hsplit] at hw
    exact absurd h' ((hgiven h).not_starts hw.of_append)
  · exact hsame
  · exact absurd h ((hgiven h').not_starts hw.of_append)

/-- A started consumer is known by its tag from then on. -/
theorem Starts.knows (h : Starts u e k t) (w : List Event) : Knows (u ++ e :: w) k t :=
  .inl ⟨u, e, w, rfl, h⟩

/-- What drops the tag of a started consumer cancels the consumer, unless the server has cancelled
another one that is known by the same tag. -/
theorem Starts.cancelled_of_drops {f : Event} {x : List Event} (hw : Worded (u ++ e :: w))
    (h : Starts u e k t) (hdrops : Drops (u ++ e :: w) f t) :
    Cancelled (u ++ e :: (w ++ f :: x)) k t ∨
      ∃ j, f = .dropped j ∧ j ≠ k ∧ Knows (u ++ e :: w) j t := by
  have hlt := Nat.lt_of_lt_of_le (h.lt hw.of_append) (length_wishes_le u (e :: w))
  have hsplit : u ++ e :: (w ++ f :: x) = (u ++ e :: w) ++ f :: x := by simp
  rcases hdrops with ⟨j, rfl, hknows⟩ | haccepts
  · by_cases hj : j = k
    · subst hj
      exact .inl ⟨u ++ e :: w, _, x, hsplit, hlt, .inl rfl⟩
    · exact .inr ⟨j, rfl, hj, hknows⟩
  · exact .inl ⟨u ++ e :: w, f, x, hsplit, hlt, .inr haccepts⟩

/-- A consumer that is cancelled has been cancelled before it was started, or something has dropped
its tag since. -/
theorem Starts.before_or_drops (hw : Worded (u ++ e :: v)) (h : Starts u e k t)
    (hcancelled : Cancelled (u ++ e :: v) k t) :
    Cancelled u k t ∨ ∃ w f x, v = w ++ f :: x ∧ Drops (u ++ e :: w) f t := by
  obtain ⟨u', e', v', hsplit, hlt, hcancel⟩ := hcancelled
  rcases append_cons_cases hsplit with ⟨w, rfl, rfl⟩ | ⟨rfl, rfl, -⟩ | ⟨w, rfl, rfl⟩
  · refine .inr ⟨w, e', v', rfl, ?_⟩
    rcases hcancel with rfl | haccepts
    · exact .inl ⟨k, rfl, h.knows w⟩
    · exact .inr haccepts
  · rcases hcancel with rfl | haccepts
    · obtain ⟨_, _, _, _, _, _, _, he, _⟩ := h
      cases he
    · exact absurd haccepts (h.not_accepts hw.of_append)
  · exact .inl ⟨u', e', w, rfl, hlt, hcancel⟩

theorem exact_iff (h : Worded events) :
    Exact events ↔ ∀ k t, ¬Overtaken events k t ∧ ¬Robbed events k t := by
  constructor
  · rintro ⟨-, hexact⟩ k t
    refine ⟨?_, ?_⟩
    · rintro ⟨u, e, v, rfl, hstarts, hcancelled, hlasts⟩
      obtain ⟨k', t', heq, hgiven, hnot⟩ :=
        (hexact _).mp ((mem_tags_iff h).mpr ⟨k, t, rfl, u, e, v, rfl, hstarts, hlasts⟩)
      obtain rfl := Value.text.inj heq
      obtain rfl := h.distinct k k' t ⟨u, e, v, rfl, hstarts⟩ hgiven
      exact hnot (hcancelled.append _)
    · rintro ⟨hnot, u, e, w, j, x, rfl, hstarts, hj, hknows⟩
      obtain ⟨k', t', heq, u', e', v', hsplit, hstarts', hlasts⟩ :=
        (mem_tags_iff h).mp ((hexact (.text t)).mpr ⟨k, t, rfl, ⟨u, e, _, rfl, hstarts⟩, hnot⟩)
      obtain rfl := Value.text.inj heq
      obtain rfl := h.distinct k k' t ⟨u, e, _, rfl, hstarts⟩ ⟨u', e', v', hsplit, hstarts'⟩
      obtain ⟨rfl, rfl, rfl⟩ := hstarts.moment_unique h hsplit hstarts'
      exact hlasts w _ x rfl (.inl ⟨j, rfl, hknows⟩)
  · intro hgood
    refine ⟨nodup_tags h, fun x => (mem_tags_iff h).trans ?_⟩
    refine exists_congr fun k => exists_congr fun t => and_congr_right fun _ => ?_
    obtain ⟨hovertaken, hrobbed⟩ := hgood k t
    constructor
    · rintro ⟨u, e, v, rfl, hstarts, hlasts⟩
      refine ⟨⟨u, e, v, rfl, hstarts⟩, fun hcancelled => ?_⟩
      rcases hstarts.before_or_drops h hcancelled with hbefore | ⟨w, f, x, rfl, hdrops⟩
      · exact hovertaken ⟨u, e, v, rfl, hstarts, hbefore, hlasts⟩
      · exact hlasts w f x rfl hdrops
    · rintro ⟨⟨u, e, v, rfl, hstarts⟩, hnot⟩
      refine ⟨u, e, v, rfl, hstarts, fun w f x hv hdrops => ?_⟩
      subst hv
      have hw : Worded (u ++ e :: w) := Worded.of_append (v := f :: x) (by simpa using h)
      rcases hstarts.cancelled_of_drops hw hdrops with hcancelled | ⟨j, rfl, hj, hknows⟩
      · exact hnot hcancelled
      · exact hrobbed ⟨hnot, u, e, w, j, x, rfl, hstarts, hj, hknows⟩

/-- A cancel of the server is reported with the tag by which the adapter knows the consumer. -/
theorem step_dropped_iff (hw : Worded u) :
    ((reached u).step (.dropped k)).2 = [.cancelled k (.text t)] ↔ Knows u k t := by
  rw [← (faithful hw).knows_iff hw, names, List.getElem?_map, step]
  cases (reached u).consumers[k]? <;> simp

theorem reported_iff (h : Worded events) : Reported events ↔
    ∀ u k t v, events = u ++ .dropped k :: v → Given events k t →
      Given u k t ∨ (wishes u)[k]? = some (.text t) := by
  refine forall_congr' fun u => forall_congr' fun k => forall_congr' fun t => forall_congr' fun v =>
    forall_congr' fun hsplit => forall_congr' fun hgiven => ?_
  subst hsplit
  rw [step_dropped_iff h.of_append]
  constructor
  · rintro (hbefore | ⟨hwish, -⟩)
    · exact .inl hbefore
    · exact .inr hwish
  · rintro (hbefore | hwish)
    · exact .inl hbefore
    · by_cases hbefore : ∃ t', Given u k t'
      · obtain ⟨t', ht'⟩ := hbefore
        exact .inl (hgiven.unique h (ht'.append _) ▸ ht')
      · exact .inr ⟨hwish, fun t' ht' => hbefore ⟨t', ht'⟩⟩

/-- **Consumers.** At every moment of a run, and so whenever no call is in flight, the consumers
that are listed are those that were started and not cancelled, unless a cancel has overtaken the
reply that starts a consumer, or the server has cancelled a consumer that is not started and is
taken for another one. Cancels of the server are reported with the tag that the broker gives if it
is known by then, or wished for, and only then. -/
theorem consumers_exact_iff (h : Worded events) :
    (Exact events ↔ ∀ k t, ¬Overtaken events k t ∧ ¬Robbed events k t) ∧
      (Reported events ↔ ∀ u k t v, events = u ++ .dropped k :: v → Given events k t →
        Given u k t ∨ (wishes u)[k]? = some (.text t)) :=
  ⟨exact_iff h, reported_iff h⟩

/-- The server cancels a consumer before the client has told its tag. -/
def overtakingCancel : List Event :=
  [.issue 0 (.basicConsume (.text "jobs") (.table [])), .dropped 0,
    .answered 0 (.replied (.table [("consumerTag", .text "x")]))]

theorem inFlight_overtakingCancel :
    InFlight (overtakingCancel.take 2) 0 (.basicConsume (.text "jobs") (.table [])) [] :=
  ⟨[.dropped 0], rfl, by simp⟩

theorem given_iff_overtakingCancel : Given overtakingCancel k t ↔ k = 0 ∧ t = "x" := by
  constructor
  · rintro ⟨u, e, v, hsplit, call, queue, options, w, reply, hflight, rfl, rfl, hread⟩
    have hmem : .answered call (.replied reply) ∈ overtakingCancel := by simp [hsplit]
    simp only [overtakingCancel, List.mem_cons, reduceCtorEq, Event.answered.injEq,
      Channel.Outcome.replied.injEq, List.not_mem_nil, or_false, false_or] at hmem
    obtain ⟨rfl, rfl⟩ := hmem
    obtain ⟨rfl, -⟩ := InFlight.unique (by decide) hsplit hflight rfl inFlight_overtakingCancel
    exact ⟨rfl, (Value.text.inj (Except.ok.inj hread)).symm⟩
  · rintro ⟨rfl, rfl⟩
    exact ⟨overtakingCancel.take 2, _, [], rfl, 0, _, _, [], _, inFlight_overtakingCancel, rfl, rfl,
      rfl⟩

theorem worded_overtakingCancel : Worded overtakingCancel where
  numbered := by decide
  wishes call queue options hmem := by
    simp only [overtakingCancel, List.mem_cons, Event.issue.injEq, reduceCtorEq,
      Channel.Primitive.basicConsume.injEq, List.not_mem_nil, or_false] at hmem
    obtain ⟨rfl, rfl, rfl⟩ := hmem
    exact ⟨"", rfl⟩
  cancels call tag hmem := by simp [overtakingCancel] at hmem
  replies u call reply v queue options w tag hsplit _ hread := by
    have hmem : .answered call (.replied reply) ∈ overtakingCancel := by simp [hsplit]
    simp only [overtakingCancel, List.mem_cons, reduceCtorEq, Event.answered.injEq,
      Channel.Outcome.replied.injEq, List.not_mem_nil, or_false, false_or] at hmem
    obtain ⟨rfl, rfl⟩ := hmem
    exact ⟨"x", (Except.ok.inj hread).symm⟩
  distinct k k' t h h' := by
    rw [(given_iff_overtakingCancel.mp h).1, (given_iff_overtakingCancel.mp h').1]

/-- The consumer is cancelled as it waits to be started. -/
theorem cancelled_overtakingCancel : Cancelled (overtakingCancel.take 2) 0 "x" :=
  ⟨overtakingCancel.take 1, .dropped 0, [], rfl, by decide, .inl rfl⟩

theorem consumers_exact_iff_overtakingCancel : Worded overtakingCancel ∧
    (reached overtakingCancel).pending = [] ∧ ¬Exact overtakingCancel ∧
      ¬Reported overtakingCancel := by
  obtain ⟨hexact, hreported⟩ := consumers_exact_iff worded_overtakingCancel
  refine ⟨worded_overtakingCancel, rfl, fun h => ?_, fun h => ?_⟩
  · refine (hexact.mp h 0 "x").1 ⟨overtakingCancel.take 2, _, [], rfl, ?_,
      cancelled_overtakingCancel, by simp⟩
    exact ⟨0, _, _, [], _, inFlight_overtakingCancel, rfl, rfl, rfl⟩
  · have hgiven : Given overtakingCancel 0 "x" := given_iff_overtakingCancel.mpr ⟨rfl, rfl⟩
    rcases hreported.mp h (overtakingCancel.take 1) 0 "x" _ rfl hgiven with hbefore | hwish
    · obtain ⟨u, e, v, hsplit, call, _, _, _, reply, _, _, rfl, _⟩ := hbefore
      have hmem : .answered call (.replied reply) ∈ overtakingCancel.take 1 := by rw [hsplit]; simp
      simp [overtakingCancel] at hmem
    · have hnone : (wishes (overtakingCancel.take 1))[0]? = some (.text "") := rfl
      have heq : "" = "x" := Value.text.inj (Option.some_inj.mp (hnone.symm.trans hwish))
      simp at heq

/-- A consumer that is cancelled stays listed, with no call in flight. -/
theorem exists_cancelled_listed : ∃ events, Worded events ∧ (reached events).pending = [] ∧
    ¬Exact events := by
  refine ⟨overtakingCancel, worded_overtakingCancel, rfl, fun h => ?_⟩
  obtain ⟨k, t, -, hgiven, hnot⟩ := (h.mem (.text "x")).mp List.mem_cons_self
  obtain ⟨rfl, rfl⟩ := given_iff_overtakingCancel.mp hgiven
  exact hnot (cancelled_overtakingCancel.append _)

end Amqp.Client.Adapter
