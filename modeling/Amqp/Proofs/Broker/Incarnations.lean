import Amqp.Proofs.Broker.Registries
import Amqp.Proofs.Broker.Returned

/-!
# Queues that are declared again

A queue that goes may leave copies on channels and consumers in registries, and a queue declared
later may get its name. What is put on a queue, and who is started on it, counts from its own
declaration (`Traced`): no consumer of an old queue is served by a new one, and no copy is put on
two queues. But a copy of a queue that has gone is put back by name. `unmixed_iff_never_strays` says
that a queue holds and hands out what was put on it, and nothing else, exactly as long as no copy is
put back on a later queue of its name.
-/

namespace Amqp.Broker

/-- The consumers that an event starts on the queue with that number. -/
def startedOn (id : Nat) (b : Broker) (e : Event) : List Consumer :=
  match e.change b with
  | .start id' s _ => if id' = id then [s] else []
  | _ => []

/-- The consumers that an event hands copies of the queue with that number to. -/
def servedFrom (id : Nat) (b : Broker) (e : Event) : List Consumer :=
  if b.scheduled.head? = some id then (b.entries e).handed.map (·.consumer) else []

/-- The consumers that were started on a queue in a run, in order. -/
def starts (id : Nat) (events : List Event) : List Consumer := alongRun (startedOn id) events

/-- The consumers that a queue handed copies to in a run, in order. -/
def serves (id : Nat) (events : List Event) : List Consumer := alongRun (servedFrom id) events

/-- The event declares a queue, which gets that number and that name. -/
def Event.Declares (b : Broker) (e : Event) (id : Nat) (name : Value) : Prop :=
  ∃ q, e.change b = .declare q ∧ q.id = id ∧ q.name = name

/-- The queue with that number was declared in the run, under that name. -/
def WasDeclared (id : Nat) (name : Value) (events : List Event) : Prop :=
  ∃ u e v, events = u ++ e :: v ∧ e.Declares (reached u) id name

/-- The copy was put on the queue in the run, and may have been put back since. -/
def WasPut (id : Nat) (events : List Event) (c : Copy) : Prop :=
  ∃ m ∈ puts id events, c = m ∨ c = m.marked

/-- The event puts a copy back that was handed out by another queue, on one that was declared later
under its name. -/
def Event.Strays (b : Broker) (e : Event) : Prop :=
  ∃ x ∈ e.returned b, ∃ q ∈ (b.step e).broker.queues,
    q.name.sameKey x.queue = true ∧ x.origin < q.id

variable {α : Type} {b : Broker} {e : Event} {events u v : List Event} {id id' : Nat} {q : Queue}
  {c c' : Copy} {x : Unacked} {s : Consumer} {name : Value}

/-! ## Declarations -/

theorem eq_declare_of_mem_added {k : Change} (hq : q ∈ k.added) : k = .declare q := by
  cases k with
  | declare q₀ => rw [List.mem_singleton.mp hq]
  | _ => cases hq

/-- A queue gets the next number, and a name that no queue has. -/
theorem Event.Declares.new (h : e.Declares b id name) :
    id = b.declared ∧ b.queue? name = none := by
  obtain ⟨q, hk, rfl, rfl⟩ := h
  have hadded : q ∈ (e.change b).added := hk ▸ List.mem_singleton_self q
  exact ⟨((turn_step b e).of_added hadded).1, ((turn_step b e).of_added hadded).2.1⟩

theorem declared_concat (u : List Event) (e : Event) :
    (reached (u ++ [e])).declared =
      (reached u).declared + (e.change (reached u)).added.length := by
  rw [reached_concat]
  exact (turn_step _ e).declared_eq (named_reached u)

/-- A queue was there before a step with the same number and name, or the step declares it. -/
theorem exists_or_declares (hnamed : b.Named) (hq : q ∈ (b.step e).broker.queues) :
    (∃ q₀ ∈ b.queues, q₀.id = q.id ∧ q₀.name = q.name) ∨ e.Declares b q.id q.name := by
  rcases exists_of_mem_step hnamed hq with ⟨q₀, hq₀, hremains⟩ | hadded
  · obtain ⟨hid, hname, _⟩ := Change.of_remains hremains
    exact .inl ⟨q₀, hq₀, hid.symm, hname.symm⟩
  · exact .inr ⟨q.shell, eq_declare_of_mem_added hadded, rfl, rfl⟩

theorem WasDeclared.concat (h : WasDeclared id name events) (e : Event) :
    WasDeclared id name (events ++ [e]) := by
  obtain ⟨u, e', v, rfl, hdeclares⟩ := h
  exact ⟨u, e', v ++ [e], by simp, hdeclares⟩

/-- A queue that is there was declared. -/
theorem wasDeclared_of_mem (hq : q ∈ (reached events).queues) : WasDeclared q.id q.name events := by
  induction events using List.reverseRecOn generalizing q with
  | nil => cases hq
  | append_singleton u e ih =>
    rw [reached_concat] at hq
    rcases exists_or_declares (named_reached u) hq with ⟨q₀, hq₀, hid, hname⟩ | hdeclares
    · have hold := ih hq₀
      rw [hid, hname] at hold
      exact hold.concat e
    · exact ⟨u, e, [], rfl, hdeclares⟩

theorem declared_le_append (u v : List Event) :
    (reached u).declared ≤ (reached (u ++ v)).declared := by
  induction v using List.reverseRecOn with
  | nil => exact Nat.le_of_eq (by rw [List.append_nil])
  | append_singleton v e ih =>
    rw [← List.append_assoc, declared_concat]
    exact Nat.le_add_right_of_le ih

/-- A queue whose number had been given out at some moment was there at that moment. -/
theorem exists_of_lt_declared (hq : q ∈ (reached (u ++ v)).queues)
    (hlt : q.id < (reached u).declared) : ∃ q₀ ∈ (reached u).queues, q₀.name = q.name := by
  induction v using List.reverseRecOn generalizing q with
  | nil => exact ⟨q, List.append_nil u ▸ hq, rfl⟩
  | append_singleton v e ih =>
    rw [← List.append_assoc, reached_concat] at hq
    rcases exists_or_declares (named_reached _) hq with ⟨q₀, hq₀, hid, hname⟩ | hdeclares
    · rw [← hname]
      exact ih hq₀ (hid ▸ hlt)
    · have hle := declared_le_append u v
      have hnew := hdeclares.new.1
      omega

/-- What comes of a number in a run comes once the number has been given out. -/
theorem lt_declared_of_mem_alongRun {f : Broker → Event → List α} {x : α}
    (hf : ∀ u e, x ∈ f (reached u) e → id < (reached (u ++ [e])).declared)
    (hx : x ∈ alongRun f events) : id < (reached events).declared := by
  induction events using List.reverseRecOn with
  | nil => cases hx
  | append_singleton u e ih =>
    rw [alongRun_concat, List.mem_append] at hx
    rcases hx with hx | hx
    · have hlt := ih hx
      have hnext := declared_concat u e
      omega
    · exact hf u e hx

/-! ## Copies on queues -/

theorem mem_readyOn_iff (hnamed : b.Named) :
    c ∈ b.readyOn id ↔ ∃ q ∈ b.queues, q.id = id ∧ c ∈ q.messages := by
  constructor
  · intro hc
    cases hq : b.queueById? id with
    | none => simp [readyOn, hq] at hc
    | some q =>
      rw [readyOn, hq] at hc
      have hid : q.id = id := by simpa using List.find?_some hq
      exact ⟨q, mem_of_queueById? hq, hid, hc⟩
  · rintro ⟨q, hq, rfl, hc⟩
    exact (hnamed.readyOn_eq hq).symm ▸ hc

theorem mem_readyOn_of_mem_putOn (hc : c ∈ putOn id b e) : c ∈ (b.step e).broker.readyOn id :=
  (List.mem_filter.mp hc).1

/-- A copy is put on a queue that is there then. -/
theorem lt_declared_of_mem_putOn (hc : c ∈ putOn id (reached u) e) :
    id < (reached (u ++ [e])).declared := by
  have hnamed := named_reached (u ++ [e])
  have hready := mem_readyOn_of_mem_putOn hc
  rw [← reached_concat, mem_readyOn_iff hnamed] at hready
  obtain ⟨q, hq, rfl, _⟩ := hready
  exact hnamed.declared q.id (List.mem_map_of_mem hq)

theorem lt_copied_of_mem_puts (hc : c ∈ puts id events) : c.serial < (reached events).copied := by
  have hmade : (books events).made.map (·.serial) = List.range (reached events).copied := by
    rw [List.range_eq_range']
    exact (shifts_run keyed_empty events).numbered.2
  have hmem := List.mem_map_of_mem (f := Copy.serial) ((puts_sublist id events).subset hc)
  exact List.mem_range.mp (hmade ▸ hmem)

/-- A copy is ready on one queue. -/
theorem eq_of_mem_readyOn (hc : c ∈ (reached events).readyOn id)
    (hc' : c' ∈ (reached events).readyOn id') (hserial : c.serial = c'.serial) : id = id' := by
  have hnamed := named_reached events
  obtain ⟨q, hq, rfl, hmem⟩ := (mem_readyOn_iff hnamed).mp hc
  obtain ⟨q', hq', rfl, hmem'⟩ := (mem_readyOn_iff hnamed).mp hc'
  have hall := (shifts_run keyed_empty events).serials_perm.nodup_iff.mpr List.nodup_range
  have hready : ((reached events).queues.flatMap fun q => q.messages.map (·.serial)).Nodup := by
    rw [← List.map_flatMap]
    refine hall.sublist (List.Sublist.map _ ?_)
    exact ((List.sublist_append_left ..).trans (List.sublist_append_left ..)).trans
      (List.sublist_append_left ..)
  by_contra hid
  have hsymm : Std.Symm (Function.onFun List.Disjoint fun q : Queue => q.messages.map (·.serial)) :=
    ⟨fun _ _ h _ hmem hmem' => h hmem' hmem⟩
  have hne : q ≠ q' := fun hsame => hid (congrArg Queue.id hsame)
  refine (List.nodup_flatMap.mp hready).2.forall hq hq' hne (List.mem_map_of_mem hmem) ?_
  rw [hserial]
  exact List.mem_map_of_mem hmem'

/-- A copy is put on one queue. -/
theorem eq_of_mem_puts (hc : c ∈ puts id events) (hc' : c' ∈ puts id' events)
    (hserial : c.serial = c'.serial) : id = id' := by
  induction events using List.reverseRecOn with
  | nil => cases hc
  | append_singleton u e ih =>
    -- The numbers of what an event puts on queues are larger than all before.
    have hlater {id : Nat} {c : Copy} (hc : c ∈ putOn id (reached u) e) :
        (reached u).copied ≤ c.serial :=
      copied_le_of_mem_made ((putOn_sublist (bounded_reached u) e id).subset hc)
    rw [puts, alongRun_concat, List.mem_append] at hc hc'
    rcases hc with hc | hc <;> rcases hc' with hc' | hc'
    · exact ih hc hc'
    · have hlt := lt_copied_of_mem_puts hc
      have hle := hlater hc'
      omega
    · have hlt := lt_copied_of_mem_puts hc'
      have hle := hlater hc
      omega
    · have hready := mem_readyOn_of_mem_putOn hc
      have hready' := mem_readyOn_of_mem_putOn hc'
      rw [← reached_concat] at hready hready'
      exact eq_of_mem_readyOn hready hready' hserial

/-- What is ready on a queue after a step was ready, or is put on it, or is put back on it. -/
theorem mem_readyOn_step (hnamed : b.Named) (hbounded : b.Bounded)
    (hc : c ∈ (b.step e).broker.readyOn id) :
    c ∈ b.readyOn id ∨ c ∈ putOn id b e ∨ ∃ x ∈ e.returned b, c = x.copy.marked ∧
      ∃ q ∈ (b.step e).broker.queues, q.id = id ∧ q.Receives x := by
  by_cases hkept : e.returned b = []
  · rcases turnover hnamed hbounded hkept id with hturns | hclears
    · have hmem : c ∈ b.readyOn id ++ putOn id b e := by
        rw [Turns] at hturns
        exact hturns ▸ List.mem_append_right _ hc
      exact (List.mem_append.mp hmem).imp_right .inl
    · rw [hclears.ready] at hc
      cases hc
  · obtain ⟨q', hq', rfl, hmem⟩ := (mem_readyOn_iff ((turn_step b e).named hnamed)).mp hc
    obtain ⟨q, hq, hrefilled⟩ := refills_step hnamed hkept q' hq'
    rcases hrefilled.got c hmem with hc | ⟨x, hx, hreceives, hcopy⟩
    · exact .inl ((mem_readyOn_iff hnamed).mpr ⟨q, hq, hrefilled.id.symm, hc⟩)
    · exact .inr (.inr ⟨x, hx, hcopy, q', hq', rfl, hreceives⟩)

/-! ## Copies that wait -/

theorem keyed_reached (events : List Event) : (reached events).Keyed :=
  keyed_empty.shifts (shifts_run keyed_empty events)

/-- What waits was handed out by the queue of its number, which was declared under its name. -/
theorem of_mem_owed (hx : x ∈ (reached events).owed) :
    x.copy ∈ handsOut x.origin events ∧ WasDeclared x.origin x.queue events := by
  induction events using List.reverseRecOn with
  | nil => cases hx
  | append_singleton u e ih =>
    rw [reached_concat] at hx
    rw [handsOut, alongRun_concat]
    rcases owed_step (keyed_reached u) hx with hx | ⟨q, hq, hid, hname, hhanded⟩
    · obtain ⟨hhanded, hdeclared⟩ := ih hx
      exact ⟨List.mem_append_left _ hhanded, hdeclared.concat e⟩
    · have hdeclared := wasDeclared_of_mem hq
      rw [hid, hname] at hdeclared
      rw [hid] at hhanded
      exact ⟨List.mem_append_right _ hhanded, hdeclared.concat e⟩

/-- A queue that has the name of one that a copy came from, and is another, was declared later. -/
theorem origin_lt (hx : x ∈ (reached u).owed) (hq : q ∈ (reached (u ++ v)).queues)
    (hname : q.name.sameKey x.queue = true) (hne : x.origin ≠ q.id) : x.origin < q.id := by
  obtain ⟨_, u', e, v', rfl, hdeclares⟩ := of_mem_owed hx
  obtain ⟨horigin, hnone⟩ := hdeclares.new
  by_contra hlt
  -- Otherwise the queue had the name already when that one was declared under it.
  rw [List.append_assoc] at hq
  obtain ⟨q₀, hq₀, hsame⟩ := exists_of_lt_declared hq (by omega)
  exact List.find?_eq_none.mp hnone q₀ hq₀ (hsame ▸ hname)

/-! ## Consumers -/

theorem alongRun_subset_append (f : Broker → Event → List α) (u v : List Event) :
    alongRun f u ⊆ alongRun f (u ++ v) := by
  rw [alongRun, alongRun, gathered_append]
  exact List.subset_append_left _ _

theorem exists_start_of_mem_startedOn (hs : s ∈ startedOn id b e) :
    ∃ name, e.change b = .start id s name := by
  rw [startedOn] at hs
  split at hs
  · rename_i id' s' name hk
    split at hs
    · rename_i hid
      obtain rfl := List.mem_singleton.mp hs
      exact ⟨name, hid ▸ hk⟩
    · cases hs
  · cases hs

/-- A consumer is started on a queue that is there. -/
theorem lt_declared_of_mem_startedOn (hs : s ∈ startedOn id (reached u) e) :
    id < (reached (u ++ [e])).declared := by
  obtain ⟨name, hk⟩ := exists_start_of_mem_startedOn hs
  obtain ⟨_, _, _, q, hq, rfl⟩ := change_eq_start hk
  have hlt := (named_reached u).declared q.id (List.mem_map_of_mem (mem_of_queue? hq))
  exact Nat.lt_of_lt_of_le hlt (declared_le_append u [e])

/-- The consumers of a queue were started on it, in that order. -/
theorem consumers_sublist_starts (hq : q ∈ (reached events).queues) :
    q.consumers.Sublist (starts q.id events) := by
  induction events using List.reverseRecOn generalizing q with
  | nil => cases hq
  | append_singleton u e ih =>
    rw [reached_concat] at hq
    rw [starts, alongRun_concat]
    rcases exists_of_mem_step (named_reached u) hq with ⟨q₀, hq₀, hremains⟩ | hadded
    · have hid : q₀.id = q.id := (Change.of_remains hremains).1.symm
      have hold := ih hq₀
      rw [hid] at hold
      rcases Change.consumers_of_remains hremains with hsub | ⟨s, name, hk, hmore⟩
      · exact (hsub.trans hold).trans (List.sublist_append_left _ _)
      · have hstarted : startedOn q.id (reached u) e = [s] := by
          rw [startedOn, hk]
          exact if_pos hid
        have hconsumers : q.consumers = q₀.consumers ++ [s] := hmore
        rw [hstarted, hconsumers]
        exact hold.append_right [s]
    · have hnone := ((turn_step _ e).of_added hadded).2.2.1
      have hconsumers : q.consumers = [] := hnone
      rw [hconsumers]
      exact List.nil_sublist _

/-- A queue serves its consumers. -/
theorem exists_of_mem_servedFrom (hs : s ∈ servedFrom id b e) :
    ∃ q ∈ b.queues, q.id = id ∧ s ∈ q.consumers := by
  by_cases he : e = .serve
  · subst he
    rw [servedFrom] at hs
    split at hs
    · rename_i hnext
      obtain ⟨h, hh, rfl⟩ := List.mem_map.mp hs
      obtain ⟨q, hq, hfirst, hmem⟩ := exists_of_mem_served hh
      exact ⟨q, hq, Option.some.inj (hfirst.symm.trans hnext), hmem⟩
    · cases hs
  · simp [servedFrom, handed_entries_of_ne he] at hs

/-- A queue serves consumers that were started on it. -/
theorem serves_subset_starts (id : Nat) (events : List Event) :
    serves id events ⊆ starts id events := by
  intro s hs
  obtain ⟨u, e, v, rfl, hserved⟩ := mem_alongRun.mp hs
  obtain ⟨q, hq, rfl, hmem⟩ := exists_of_mem_servedFrom hserved
  exact alongRun_subset_append _ _ _ ((consumers_sublist_starts hq).subset hmem)

/-- Every handover is of a copy that some queue hands out, to a consumer that it serves. -/
theorem exists_serves {h : Handover} (hh : h ∈ (books events).handed) :
    ∃ id, h.copy ∈ handsOut id events ∧ h.consumer ∈ serves id events := by
  rw [handed_books, mem_alongRun] at hh
  obtain ⟨u, e, v, rfl, hh⟩ := hh
  obtain rfl : e = .serve := by
    by_contra he
    rw [handed_entries_of_ne he] at hh
    cases hh
  obtain ⟨q, _, hnext, _⟩ := exists_of_mem_served hh
  refine ⟨q.id, mem_alongRun.mpr ⟨u, .serve, v, rfl, ?_⟩, mem_alongRun.mpr ⟨u, .serve, v, rfl, ?_⟩⟩
  · rw [handedFrom, if_pos hnext]
    exact List.mem_map_of_mem hh
  · rw [servedFrom, if_pos hnext]
    exact List.mem_map_of_mem hh

/-! ## What comes before a declaration -/

/-- A declaration makes no copy. -/
theorem Event.Declares.made_eq_nil (h : e.Declares b id name) : (b.entries e).made = [] := by
  obtain ⟨q, hk, _⟩ := h
  rcases entries_cases b e with ⟨ch, number, _, _, _, _, rfl, _, _⟩ | rfl | honly
  · simp only [Event.change] at hk
    split at hk <;> cases hk
  · rfl
  · exact honly.made

/-- Nothing is put on a queue until it is declared, and no consumer is started on it. -/
theorem nothing_before (h : e.Declares (reached u) id name) :
    puts id (u ++ [e]) = [] ∧ starts id (u ++ [e]) = [] := by
  -- The number is the next one: nothing before can have to do with it.
  have hdeclared : id = (reached u).declared := h.new.1
  constructor
  · have hput : putOn id (reached u) e = [] :=
      List.sublist_nil.mp (h.made_eq_nil ▸ putOn_sublist (bounded_reached u) e id)
    rw [puts, alongRun_concat, hput, List.append_nil]
    refine List.eq_nil_iff_forall_not_mem.mpr fun c hc => ?_
    have hlt := lt_declared_of_mem_alongRun (fun _ _ => lt_declared_of_mem_putOn) hc
    omega
  · have hstarted : startedOn id (reached u) e = [] := by
      obtain ⟨q, hk, _⟩ := h
      rw [startedOn, hk]
    rw [starts, alongRun_concat, hstarted, List.append_nil]
    refine List.eq_nil_iff_forall_not_mem.mpr fun s hs => ?_
    have hlt := lt_declared_of_mem_alongRun (fun _ _ => lt_declared_of_mem_startedOn) hs
    omega

/-! ## Where copies were put -/

theorem WasPut.append (h : WasPut id u c) (v : List Event) : WasPut id (u ++ v) c := by
  obtain ⟨m, hm, hc⟩ := h
  exact ⟨m, alongRun_subset_append _ u v hm, hc⟩

/-- A copy that is put back is still one of the queue that it was put on. -/
theorem WasPut.marked (h : WasPut id u c) : WasPut id u c.marked := by
  obtain ⟨m, hm, rfl | rfl⟩ := h
  · exact ⟨_, hm, .inr rfl⟩
  · exact ⟨m, hm, .inr rfl⟩

theorem WasPut.exists_serial (h : WasPut id u c) : ∃ m ∈ puts id u, m.serial = c.serial := by
  obtain ⟨m, hm, rfl | rfl⟩ := h
  · exact ⟨_, hm, rfl⟩
  · exact ⟨m, hm, rfl⟩

/-- A copy that was put on a queue was put on no other. -/
theorem WasPut.eq_of_serial (h : WasPut id u c) (h' : WasPut id' u c')
    (hserial : c.serial = c'.serial) : id = id' := by
  obtain ⟨m, hm, hsame⟩ := h.exists_serial
  obtain ⟨m', hm', hsame'⟩ := h'.exists_serial
  exact eq_of_mem_puts hm hm' ((hsame.trans hserial).trans hsame'.symm)

/-- What is handed out was ready. -/
theorem mem_readyOn_of_mem_handedFrom (hc : c ∈ handedFrom id b e) : c ∈ b.readyOn id := by
  by_cases he : e = .serve
  · rw [he] at hc
    rw [handedFrom_serve]
    exact List.mem_append_left _ hc
  · rw [handedFrom_eq_nil he] at hc
    cases hc

/-! ## Runs -/

/-- What is put on queues and who is started on them belongs to one queue each, from its declaration
on, and queues are served to their own consumers. -/
structure Traced (events : List Event) : Prop where
  /-- A queue that is there was declared under its name. -/
  declared : ∀ q ∈ (reached events).queues, WasDeclared q.id q.name events
  /-- Nothing is put on a queue or started on it until it is declared. -/
  since : ∀ id name u e v, events = u ++ e :: v → e.Declares (reached u) id name →
    puts id (u ++ [e]) = [] ∧ starts id (u ++ [e]) = []
  /-- No copy is put on two queues. -/
  apart : ∀ id id' c c', c ∈ puts id events → c' ∈ puts id' events → c.serial = c'.serial →
    id = id'
  /-- A queue has consumers that were started on it. -/
  consumers : ∀ q ∈ (reached events).queues, q.consumers.Sublist (starts q.id events)
  /-- A queue is served to consumers that were started on it. -/
  served : ∀ id, serves id events ⊆ starts id events
  /-- Users of channels hear of each handover, in order. -/
  delivered : (emitted events).filter Effect.isDelivery =
    (books events).handed.map Handover.effect
  /-- What is handed over is handed out by a queue to a consumer that it is served to. -/
  handed : ∀ h ∈ (books events).handed, ∃ id,
    h.copy ∈ handsOut id events ∧ h.consumer ∈ serves id events

/-- Queues hold and hand out what was put on them, and nothing else. -/
structure Unmixed (events : List Event) : Prop where
  ready : ∀ q ∈ (reached events).queues, ∀ c ∈ q.messages, WasPut q.id events c
  handed : ∀ id, ∀ c ∈ handsOut id events, WasPut id events c

theorem traced (events : List Event) : Traced events where
  declared _ hq := wasDeclared_of_mem hq
  since _ _ _ _ _ _ h := nothing_before h
  apart _ _ _ _ hc hc' hserial := eq_of_mem_puts hc hc' hserial
  consumers _ hq := consumers_sublist_starts hq
  served id := serves_subset_starts id events
  delivered := deliveries_emittedFrom {} events
  handed _ hh := exists_serves hh

theorem Unmixed.wasPut_of_mem_readyOn (h : Unmixed u) (hc : c ∈ (reached u).readyOn id) :
    WasPut id u c := by
  obtain ⟨q, hq, rfl, hmem⟩ := (mem_readyOn_iff (named_reached u)).mp hc
  exact h.ready q hq c hmem

/-- What waits was put on the queue that it came from. -/
theorem Unmixed.wasPut_of_mem_returned (h : Unmixed u) (hx : x ∈ e.returned (reached u)) :
    WasPut x.origin u x.copy :=
  h.handed _ _ (of_mem_owed (returned_subset_owed (keyed_reached u) e hx)).1

/-- An event that puts nothing back on a later queue mixes nothing up. -/
theorem Unmixed.step (h : Unmixed u) (hstays : ¬e.Strays (reached u)) : Unmixed (u ++ [e]) := by
  refine ⟨fun q hq c hc => ?_, fun id c hc => ?_⟩
  · have hready : c ∈ ((reached u).step e).broker.readyOn q.id := by
      rw [← reached_concat]
      exact (mem_readyOn_iff (named_reached _)).mpr ⟨q, hq, rfl, hc⟩
    rcases mem_readyOn_step (named_reached u) (bounded_reached u) hready with
      hold | hput | ⟨x, hx, rfl, q', hq', hid, hreceives⟩
    · exact (h.wasPut_of_mem_readyOn hold).append [e]
    · refine ⟨c, ?_, .inl rfl⟩
      rw [puts, alongRun_concat]
      exact List.mem_append_right _ hput
    · have horigin : x.origin = q.id := by
        rcases hreceives with hsame | hname
        · exact hsame.trans hid
        · by_contra hne
          have howed := returned_subset_owed (keyed_reached u) e hx
          have hlt := origin_lt howed (reached_concat u e ▸ hq') hname (hid ▸ hne)
          exact hstays ⟨x, hx, q', hq', hname, hlt⟩
      exact horigin ▸ ((h.wasPut_of_mem_returned hx).append [e]).marked
  · rw [handsOut, alongRun_concat, List.mem_append] at hc
    rcases hc with hc | hc
    · exact (h.handed id c hc).append [e]
    · exact (h.wasPut_of_mem_readyOn (mem_readyOn_of_mem_handedFrom hc)).append [e]

/-- A copy that is put back on a later queue was put on an earlier one. -/
theorem not_unmixed_of_strays (h : Unmixed u) (hstrays : e.Strays (reached u)) :
    ¬Unmixed (u ++ [e]) := by
  intro hafter
  obtain ⟨x, hx, q, hq, hname, hlt⟩ := hstrays
  obtain ⟨_, _, hrefilled⟩ := refills_step (named_reached u) (List.ne_nil_of_mem hx) q hq
  have hmem : x.copy.marked ∈ q.messages := hrefilled.named x hx hname
  rw [← reached_concat] at hq
  have hput := (h.wasPut_of_mem_returned hx).append [e]
  have horigin := (hafter.ready q hq _ hmem).eq_of_serial hput rfl
  omega

/-- Incarnations of a queue have their own consumers in every run, and no copy is put on two queues;
but a copy that is put back goes to the queue that has the name. So queues hold and hand out what
was put on them, and nothing else, exactly as long as no copy of a queue is put back on one that was
declared later under its name. -/
theorem unmixed_iff_never_strays (events : List Event) :
    Traced events ∧ ((∀ u v, events = u ++ v → Unmixed u) ↔
      ∀ u e v, events = u ++ e :: v → ¬e.Strays (reached u)) := by
  refine ⟨traced events, forall_prefix_iff ?_ fun u e _ _ h => ?_⟩
  · exact ⟨List.forall_mem_nil _, fun _ => List.forall_mem_nil _⟩
  · exact ⟨fun hafter hstrays => not_unmixed_of_strays h hstrays hafter, h.step⟩

/-- A queue is deleted while a copy of it waits, and declared again; then the copy is put back. -/
def declaredAgain : List Event :=
  [.openChannel,
    .request 0 0 (.queueDeclare (some (.table
      [("name", .text "jobs"), ("autoDelete", .bool false)]))),
    .request 0 1 (.basicConsume (.text "jobs") (.table [("consumerTag", .text "ctag")])),
    .request 0 2 (.basicPublish (.text "") (.text "jobs") (.table []) (.bytes [97])),
    .serve, .serve,
    .request 0 3 (.queueDelete (.text "jobs")),
    .request 0 4 (.queueDeclare (some (.table
      [("name", .text "jobs"), ("autoDelete", .bool false)]))),
    .request 0 5 (.basicNack (.assigned 1) (.bool false) (.bool true))]

/-- In that run the second queue of the name holds a copy, and nothing was ever put on it. -/
theorem exists_mixed : ∃ q ∈ (reached declaredAgain).queues, ∃ c ∈ q.messages,
    ¬WasPut q.id declaredAgain c := by
  have hmixed : ∃ q ∈ (reached declaredAgain).queues, (∃ c ∈ q.messages, True) ∧
      (puts q.id declaredAgain).isEmpty = true := by decide
  obtain ⟨q, hq, ⟨c, hc, _⟩, hnone⟩ := hmixed
  refine ⟨q, hq, c, hc, ?_⟩
  rintro ⟨m, hm, _⟩
  rw [List.isEmpty_iff.mp hnone] at hm
  cases hm

end Amqp.Broker
