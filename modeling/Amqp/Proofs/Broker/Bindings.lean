import Amqp.Proofs.Broker.Atomicity

/-!
# Bindings and the queues they name

A binding is made only to a queue that exists, and it goes only with its exchange. So it can outlive
its queue: bindings name queues that exist for as long as no queue with a binding is deleted or goes
with its last consumer. For as long, a publish fails only for an exchange that is not declared.
-/

namespace Amqp.Broker

variable {b : Broker} {e : Event} {q : Queue}

/-- Every binding names a queue that exists. -/
def Bound (b : Broker) : Prop := ∀ x ∈ b.exchanges, ∀ d ∈ x.bindings, (b.queue? d.queue).isSome

/-- A queue that a binding names goes with the event. -/
def Event.Orphans (b : Broker) (e : Event) : Prop :=
  ∃ q ∈ b.queues, e.Removes b q ∧ ∃ x ∈ b.exchanges, ∃ d ∈ x.bindings,
    q.name.sameKey d.queue = true

/-! ## Steps -/

theorem queue?_of_queues {b' : Broker} (h : b'.queues = b.queues) (name : Value) :
    b'.queue? name = b.queue? name := by
  rw [queue?, queue?, h]

/-- A name still means a queue after a step that leaves something of it. -/
theorem queue?_step_isSome (hb : b.Named) (hq : q ∈ b.queues) (hkept : ¬e.Removes b q)
    {name : Value} (hname : q.name.sameKey name = true) :
    ((b.step e).broker.queue? name).isSome := by
  obtain ⟨x, hx⟩ : ∃ x, (e.change b).remains q = some x :=
    Option.ne_none_iff_exists'.mp fun hnone => hkept ((remains_eq_none_iff hb hq).mp hnone)
  have hshell : (e.change b).remains q.shell = some x.shell := by
    rw [Change.remains_shell, hx, Option.map_some]
  obtain ⟨q', hq', hsame⟩ := mem_step_of_remains hb hq hshell
  have hname' : q'.name = q.name := by
    rw [← Queue.shell_name, hsame, Queue.shell_name, (Change.of_remains hx).2.1]
  exact List.find?_isSome.mpr ⟨q', hq', hname' ▸ hname⟩

/-- The name of a queue that goes means no queue after the step. -/
theorem queue?_step_eq_none (hb : b.Named) (hq : q ∈ b.queues) (hgone : e.Removes b q)
    {name : Value} (hname : q.name.sameKey name = true) : (b.step e).broker.queue? name = none := by
  refine List.find?_eq_none.mpr fun q' hq' hname' => ?_
  rcases exists_of_mem_step hb hq' with ⟨q₁, hq₁, hremains⟩ | hadded
  · have hsame : q'.name = q₁.name := (Change.of_remains hremains).2.1
    obtain rfl : q₁ = q := hb.eq_of_sameKey hq₁ hq (hsame ▸ hname') hname
    have hnone := (remains_eq_none_iff hb hq).mpr hgone
    rw [Change.remains_shell, hnone] at hremains
    cases hremains
  · obtain ⟨_, hnew, _⟩ := (turn_step b e).of_added hadded
    have hsame : q.name.sameKey q'.name = true := by
      rw [Value.sameKey_congr hname, Value.sameKey_comm, hname']
    exact List.find?_eq_none.mp hnew q hq hsame

/-- Bindings stay bound with a step exactly if it takes no queue from one. -/
theorem bound_step_iff (hb : b.Named) (hbound : b.Bound) :
    (b.step e).broker.Bound ↔ ¬e.Orphans b := by
  constructor
  · rintro hafter ⟨q, hq, hgone, x, hx, d, hd, hname⟩
    have hnone := queue?_step_eq_none hb hq hgone hname
    rcases (turn_step b e).exchanges hb with hsame | ⟨hqueues, _⟩
    · have hsome := hafter x (hsame ▸ hx) d hd
      rw [hnone] at hsome
      cases hsome
    · have hsome := hbound x hx d hd
      rw [← queue?_of_queues hqueues, hnone] at hsome
      cases hsome
  · intro hkept
    have hold (x : Exchange) (hx : x ∈ b.exchanges) (d : Binding) (hd : d ∈ x.bindings) :
        ((b.step e).broker.queue? d.queue).isSome := by
      obtain ⟨q, hq⟩ := Option.isSome_iff_exists.mp (hbound x hx d hd)
      obtain ⟨hmem, hname⟩ := hb.queue?_eq_some_iff.mp hq
      have hstays : ¬e.Removes b q := fun hgone => hkept ⟨q, hmem, hgone, x, hx, d, hd, hname⟩
      exact queue?_step_isSome hb hmem hstays hname
    intro x' hx' d hd
    rcases (turn_step b e).exchanges hb with hsame | ⟨hqueues, hbindings⟩
    · exact hold x' (hsame ▸ hx') d hd
    · rcases hbindings x' hx' d hd with ⟨x, hx, hd⟩ | hnew
      · exact hold x hx d hd
      · rwa [queue?_of_queues hqueues]

/-! ## Publishing -/

/-- Words have to be compared, and there is something that is no text. -/
def Exchange.Wordless (x : Exchange) (key : Value) : Prop :=
  x.type = .topic ∧ ∃ d ∈ x.bindings, (∀ s, d.key ≠ .text s) ∨ ∀ s, key ≠ .text s

/-- A publish on an open channel is refused only for an exchange that is neither the default one nor
declared, or for words that are no texts. -/
def Publishable (b : Broker) : Prop :=
  ∀ ch number exchangeName key properties body, b.IsOpen ch →
    ((b.step (.request ch number (.basicPublish exchangeName key properties body))).IsRefused ↔
      exchangeName.isEqual (.text defaultExchange) = false ∧
        ∀ x, b.exchange? exchangeName = some x → x.Wordless key)

/-- A text has words, and nothing else has. -/
theorem wordsOf_cases (subject : String) (v : Value) :
    (∃ s, v = .text s ∧ wordsOf subject v = .ok s) ∨
      ((∀ s, v ≠ .text s) ∧ ∃ thrown, wordsOf subject v = .error thrown) := by
  cases v with
  | text s => exact .inl ⟨s, rfl, rfl⟩
  | _ => exact .inr ⟨fun s h => (by cases h), _, rfl⟩

/-- Only words that are no texts cannot be compared. -/
theorem selects_cases (type : ExchangeType) (bound key : Value) :
    ((type = .topic ∧ ((∀ s, bound ≠ .text s) ∨ ∀ s, key ≠ .text s)) ∧
        ∃ thrown, type.selects bound key = .error thrown) ∨
      (¬(type = .topic ∧ ((∀ s, bound ≠ .text s) ∨ ∀ s, key ≠ .text s)) ∧
        ∃ t, type.selects bound key = .ok t) := by
  cases type with
  | topic =>
    rcases wordsOf_cases "pattern" bound with ⟨pattern, hpattern, hok⟩ | ⟨hnone, thrown, herror⟩
    · rcases wordsOf_cases "routingKey" key with ⟨words, hwords, hok'⟩ | ⟨hnone, thrown, herror⟩
      · refine .inr ⟨?_, Topic.isMatch pattern words, ?_⟩
        case refine_2 =>
          simp only [ExchangeType.selects, hok, hok']
          rfl
        rintro ⟨_, hneither | hneither⟩
        · exact hneither pattern hpattern
        · exact hneither words hwords
      · refine .inl ⟨⟨rfl, .inr hnone⟩, thrown, ?_⟩
        simp only [ExchangeType.selects, hok, herror]
        rfl
    · refine .inl ⟨⟨rfl, .inl hnone⟩, thrown, ?_⟩
      simp only [ExchangeType.selects, herror]
      rfl
  | fanout => exact .inr ⟨fun h => (by cases h.1), _, rfl⟩
  | headers => exact .inr ⟨fun h => (by cases h.1), _, rfl⟩
  | direct => exact .inr ⟨fun h => (by cases h.1), _, rfl⟩
  | other name => exact .inr ⟨fun h => (by cases h.1), _, rfl⟩

theorem filterAuxM_cons {α ε : Type} {f : α → Except ε Bool} {a : α} {t : Bool}
    (ha : f a = .ok t) (l acc : List α) :
    List.filterAuxM f (a :: l) acc = List.filterAuxM f l (cond t (a :: acc) acc) := by
  simp only [List.filterAuxM, ha]
  rfl

/-- A test that answers on every entry picks out entries as a plain one does. -/
theorem filterM_eq_ok {α ε : Type} {f : α → Except ε Bool} {p : α → Bool} {l : List α}
    (h : ∀ a ∈ l, f a = .ok (p a)) : l.filterM f = .ok (l.filter p) := by
  have haux (acc : List α) : List.filterAuxM f l acc = .ok ((l.filter p).reverse ++ acc) := by
    induction l generalizing acc with
    | nil => rfl
    | cons a l ih =>
      obtain ⟨ha, hl⟩ := List.forall_mem_cons.mp h
      rw [filterAuxM_cons ha, ih hl]
      cases hpa : p a <;> simp [hpa]
  rw [List.filterM, haux, List.append_nil]
  exact congrArg Except.ok (List.reverse_reverse _)

/-- A test that fails on an entry picks out nothing. -/
theorem exists_filterM_eq_error {α ε : Type} {f : α → Except ε Bool} {l : List α}
    (h : ∃ a ∈ l, ∃ thrown, f a = .error thrown) : ∃ thrown, l.filterM f = .error thrown := by
  have haux (acc : List α) : ∃ thrown, List.filterAuxM f l acc = .error thrown := by
    induction l generalizing acc with
    | nil =>
      obtain ⟨a, ha, _⟩ := h
      cases ha
    | cons a l ih =>
      cases hfa : f a with
      | error thrown =>
        refine ⟨thrown, ?_⟩
        simp only [List.filterAuxM, hfa]
        rfl
      | ok t =>
        rw [filterAuxM_cons hfa]
        obtain ⟨a', ha', thrown, hfails⟩ := h
        rcases List.mem_cons.mp ha' with rfl | ha'
        · cases hfa.symm.trans hfails
        · exact ih ⟨a', ha', thrown, hfails⟩ _
  obtain ⟨thrown, hthrown⟩ := haux []
  exact ⟨thrown, by rw [List.filterM, hthrown]; rfl⟩

/-- An exchange selects queues that its bindings name, unless words cannot be compared. -/
theorem selected_cases (x : Exchange) (key : Value) :
    (x.Wordless key ∧ ∃ thrown, x.selected key = .error thrown) ∨
      (¬x.Wordless key ∧ ∃ names, x.selected key = .ok names ∧
        ∀ name ∈ names, ∃ d ∈ x.bindings, name = d.queue) := by
  by_cases hfails : ∃ d ∈ x.bindings, ∃ thrown, x.type.selects d.key key = .error thrown
  · obtain ⟨thrown, hthrown⟩ := exists_filterM_eq_error hfails
    obtain ⟨d, hd, _, hfails⟩ := hfails
    refine .inl ⟨?_, thrown, by rw [Exchange.selected, hthrown]; rfl⟩
    rcases selects_cases x.type d.key key with ⟨⟨htopic, hnone⟩, _⟩ | ⟨_, t, hok⟩
    · exact ⟨htopic, d, hd, hnone⟩
    · cases hfails.symm.trans hok
  · have hselects (d : Binding) (hd : d ∈ x.bindings) :
        ¬(x.type = .topic ∧ ((∀ s, d.key ≠ .text s) ∨ ∀ s, key ≠ .text s)) ∧
          x.type.selects d.key key = .ok ((x.type.selects d.key key).toOption.getD false) := by
      rcases selects_cases x.type d.key key with ⟨_, hfail⟩ | ⟨hnot, t, hok⟩
      · exact absurd ⟨d, hd, hfail⟩ hfails
      · exact ⟨hnot, by rw [hok]; rfl⟩
    refine .inr ⟨?_, _, by rw [Exchange.selected, filterM_eq_ok fun d hd => (hselects d hd).2]; rfl,
      ?_⟩
    · rintro ⟨htopic, d, hd, hnone⟩
      exact (hselects d hd).1 ⟨htopic, hnone⟩
    · intro name hname
      obtain ⟨d, hd, rfl⟩ := List.mem_map.mp hname
      exact ⟨d, (List.mem_filter.mp hd).1, rfl⟩

theorem distinct_subset (names : List Value) : distinct names ⊆ names := by
  induction names with
  | nil => exact List.Subset.refl _
  | cons name names ih =>
    rw [distinct]
    exact List.cons_subset_cons _ (List.Subset.trans List.filter_sublist.subset ih)

/-- Where the default exchange is asked for a queue, it selects one that exists or none. -/
theorem targets_default {exchangeName : Value} (key : Value)
    (hdefault : exchangeName.isEqual (.text defaultExchange) = true) :
    ∃ names, b.targets exchangeName key = .ok names ∧ ∀ name ∈ names, (b.queue? name).isSome := by
  refine ⟨if (b.queue? key).isSome then [key] else [], by rw [targets, if_pos hdefault], ?_⟩
  intro name hname
  split at hname
  · rename_i hsome
    rwa [List.mem_singleton.mp hname]
  · cases hname

/-- An exchange that is declared selects the queues of its bindings. -/
theorem targets_declared {exchangeName : Value} {x : Exchange} (key : Value)
    (hdefault : exchangeName.isEqual (.text defaultExchange) = false)
    (hx : b.exchange? exchangeName = some x) :
    b.targets exchangeName key = ((x.selected key).map distinct).mapError .noText := by
  have hexchange : b.exchange exchangeName = .ok x := by rw [exchange, hx]
  rw [targets, hdefault, hexchange]
  rfl

theorem targets_undeclared {exchangeName : Value} (key : Value)
    (hdefault : exchangeName.isEqual (.text defaultExchange) = false)
    (hx : b.exchange? exchangeName = none) :
    b.targets exchangeName key = .error (.noExchange exchangeName) := by
  have hexchange : b.exchange exchangeName = .error (.noExchange exchangeName) := by
    rw [exchange, hx]
  rw [targets, hdefault, hexchange]
  rfl

/-- A publish is not refused where all its queues exist. -/
theorem not_isRefused_publish {exchangeName key properties body : Value} {names : List Value}
    (htargets : b.targets exchangeName key = .ok names)
    (hnames : ∀ name ∈ names, (b.queue? name).isSome) :
    ¬(b.publish exchangeName key properties body).IsRefused := by
  rw [isRefused_publish_iff, htargets]
  rintro (⟨f, ⟨⟩⟩ | ⟨names', hsame, name, hmem, hnone⟩)
  obtain rfl := Except.ok.inj hsame
  have hsome := hnames name hmem
  rw [hnone] at hsome
  cases hsome

/-- Where bindings name queues that exist, the exchange of a publish is all that can be wrong. -/
theorem Bound.publishable (h : b.Bound) : b.Publishable := by
  rintro ch number exchangeName key properties body ⟨c, hopen⟩
  rw [step_of_openChannel hopen, perform]
  cases hdefault : exchangeName.isEqual (.text defaultExchange) with
  | true =>
    obtain ⟨names, htargets, hnames⟩ := targets_default (b := b) key hdefault
    refine ⟨fun hrefused => absurd hrefused (not_isRefused_publish htargets hnames), ?_⟩
    rintro ⟨⟨⟩, _⟩
  | false =>
    cases hx : b.exchange? exchangeName with
    | none =>
      refine ⟨fun _ => ⟨rfl, by rintro x ⟨⟩⟩, fun _ => ?_⟩
      exact isRefused_publish_iff.mpr (.inl ⟨_, targets_undeclared key hdefault hx⟩)
    | some x =>
      have htargets := targets_declared key hdefault hx
      rcases selected_cases x key with ⟨hwordless, thrown, hfails⟩ | ⟨hwords, names, hok, hsub⟩
      · rw [hfails] at htargets
        refine ⟨fun _ => ⟨rfl, ?_⟩, fun _ => isRefused_publish_iff.mpr (.inl ⟨_, htargets⟩)⟩
        rintro x' ⟨⟩
        exact hwordless
      · rw [hok] at htargets
        have hnames (name : Value) (hname : name ∈ distinct names) : (b.queue? name).isSome := by
          obtain ⟨d, hd, rfl⟩ := hsub name (distinct_subset names hname)
          exact h x (List.mem_of_find?_eq_some hx) d hd
        refine ⟨fun hrefused => absurd hrefused (not_isRefused_publish htargets hnames), ?_⟩
        rintro ⟨_, hwordless⟩
        exact absurd (hwordless x rfl) hwords

/-! ## Runs -/

/-- **Bindings.** In every run, at every moment every binding names a queue that exists and a
publish fails only for its exchange, exactly if no queue that a binding names is deleted or goes
with its last consumer. -/
theorem bound_iff_not_orphaned (events : List Event) :
    (∀ u v, events = u ++ v → (reached u).Bound ∧ (reached u).Publishable) ↔
      ∀ u e v, events = u ++ e :: v → ¬e.Orphans (reached u) := by
  have hbound : (∀ u v, events = u ++ v → (reached u).Bound) ↔
      ∀ u e v, events = u ++ e :: v → ¬e.Orphans (reached u) := by
    refine forall_prefix_iff (List.forall_mem_nil _) fun u e v _ hbound => ?_
    rw [reached_concat]
    exact bound_step_iff (named_reached u) hbound
  rw [← hbound]
  constructor
  · exact fun h u v hevents => (h u v hevents).1
  · exact fun h u v hevents => ⟨h u v hevents, (h u v hevents).publishable⟩

/-- A queue is bound to an exchange, and then it is deleted. -/
def boundDeleted : List Event :=
  [.openChannel,
    .request 0 1 (.queueDeclare (some (.table [("name", .text "jobs")]))),
    .request 0 2 (.exchangeDeclare (.table [("name", .text "logs"), ("type", .text "fanout")])),
    .request 0 3 (.queueBind (.text "jobs") (.text "logs") (.text "")),
    .request 0 4 (.queueDelete (.text "jobs"))]

/-- The binding is still there, and a publish to the exchange, which is declared, is refused. -/
theorem exists_binding_of_no_queue :
    (¬∀ events, (reached events).Bound) ∧ ¬∀ events, (reached events).Publishable := by
  constructor
  · intro h
    have hbound : ∀ x ∈ (reached boundDeleted).exchanges, ∀ d ∈ x.bindings,
        ((reached boundDeleted).queue? d.queue).isSome := h boundDeleted
    have hsome := hbound _ (List.mem_singleton_self _) _ (List.mem_singleton_self _)
    exact Bool.false_ne_true hsome
  · intro h
    have hrefused : ((reached boundDeleted).step (.request 0 5 (.basicPublish (.text "logs")
        (.text "") (.table []) (.bytes [])))).IsRefused := ⟨_, rfl⟩
    have hiff := h boundDeleted 0 5 (.text "logs") (.text "") (.table []) (.bytes []) ⟨_, rfl⟩
    have hwordless := (hiff.mp hrefused).2 _ rfl
    cases hwordless.1

end Amqp.Broker
