import Amqp.Proofs.Broker.Ready
import Amqp.Proofs.Broker.Shifts
import Amqp.Proofs.Gathered

/-!
# First in, first out

While nothing is put back, a queue is a line: what is published to it joins at the end, and serving
it hands out what stands at the front. `turnover` says so of one step: what was ready and what is
put on the queue is what is handed out and what is ready then, in that order, unless the queue is
purged or goes. A run keeps the order, and leaves out nothing but what was ready at such a moment.
-/

namespace Amqp

namespace Broker

/-- What the steps of a run of an empty broker come to. -/
def alongRun {α : Type} (f : Broker → Event → List α) (events : List Event) : List α :=
  gathered (fun b e => (b.step e).broker) f {} events

/-- The copy is one of those that the event makes. -/
def Event.makes (b : Broker) (e : Event) (c : Copy) : Bool :=
  (b.entries e).made.any (·.serial == c.serial)

/-- The copies that an event makes and puts on the queue with that number. -/
def putOn (id : Nat) (b : Broker) (e : Event) : List Copy :=
  ((b.step e).broker.readyOn id).filter (e.makes b)

/-- The copies that an event hands to consumers of the queue with that number, on any channels. -/
def handedFrom (id : Nat) (b : Broker) (e : Event) : List Copy :=
  if b.scheduled.head? = some id then (b.entries e).handed.map (·.copy) else []

/-- The copies that were put on a queue in a run, in order. -/
def puts (id : Nat) (events : List Event) : List Copy := alongRun (putOn id) events

/-- The copies that a queue handed out in a run, in order. -/
def handsOut (id : Nat) (events : List Event) : List Copy := alongRun (handedFrom id) events

/-- The copies that were taken off channels in a run in order to be put back. -/
def givenBack (events : List Event) : List Unacked := alongRun (fun b e => e.returned b) events

/-- The event drops all that is ready on the queue, by a request on an open channel. -/
def Event.Purges (b : Broker) (e : Event) (q : Queue) : Prop :=
  ∃ ch number name, e = .request ch number (.queuePurge name) ∧ b.IsOpen ch ∧
    b.queue? name = some q

/-- The event empties the queue with that number, which is purged or goes. -/
def Event.Drops (b : Broker) (e : Event) (id : Nat) : Prop :=
  ∃ q ∈ b.queues, q.id = id ∧ (e.Purges b q ∨ e.Removes b q)

/-- Everything that is ready has a number that has been used up. -/
def Bounded (b : Broker) : Prop := ∀ c ∈ b.ready, c.serial < b.copied

variable {α : Type} {b b' : Broker} {e : Event} {events : List Event} {id : Nat} {q : Queue}
  {c : Copy}

theorem alongRun_concat (f : Broker → Event → List α) (u : List Event) (e : Event) :
    alongRun f (u ++ [e]) = alongRun f u ++ f (reached u) e := by
  rw [alongRun, gathered_concat]
  rfl

theorem mem_alongRun {f : Broker → Event → List α} {x : α} :
    x ∈ alongRun f events ↔ ∃ u e v, events = u ++ e :: v ∧ x ∈ f (reached u) e :=
  mem_gathered

/-- The books of a run are made up step by step. -/
theorem books_eq_alongRun {g : Books → List α} (hnil : g {} = [])
    (happend : ∀ s t, g (s ++ t) = g s ++ g t) (events : List Event) :
    g (books events) = alongRun (fun b e => g (b.entries e)) events := by
  have hfrom (b : Broker) : g (b.booksFrom events) =
      gathered (fun b e => (b.step e).broker) (fun b e => g (b.entries e)) b events := by
    induction events generalizing b with
    | nil => exact hnil
    | cons e events ih => rw [booksFrom, happend, ih, gathered]
  exact hfrom {}

theorem made_books (events : List Event) :
    (books events).made = alongRun (fun b e => (b.entries e).made) events :=
  books_eq_alongRun rfl Books.made_append events

theorem handed_books (events : List Event) :
    (books events).handed = alongRun (fun b e => (b.entries e).handed) events :=
  books_eq_alongRun rfl Books.handed_append events

/-- A run that puts nothing back puts nothing back up to any moment. -/
theorem givenBack_append {u v : List Event} (h : givenBack (u ++ v) = []) : givenBack u = [] := by
  rw [givenBack, alongRun, gathered_append] at h
  exact (List.append_eq_nil_iff.mp h).1

theorem givenBack_concat {u : List Event} (h : givenBack (u ++ [e]) = []) :
    givenBack u = [] ∧ e.returned (reached u) = [] := by
  rw [givenBack, alongRun_concat] at h
  exact List.append_eq_nil_iff.mp h

/-! ## What a step makes and hands out -/

/-- The copies of a publish get new numbers. -/
theorem copied_le_of_mem_made (hc : c ∈ (b.entries e).made) : b.copied ≤ c.serial := by
  rcases entries_cases b e with ⟨_, _, _, _, _, _, _, _, hentries⟩ | rfl | honly
  · rw [hentries] at hc
    exact (mem_published hc).2.1
  · cases hc
  · rw [honly.made] at hc
    cases hc

/-- What was there before is not what the event makes. -/
theorem filter_makes_eq_nil {copies : List Copy} (hold : ∀ c ∈ copies, c.serial < b.copied) :
    copies.filter (e.makes b) = [] := by
  refine List.filter_eq_nil_iff.mpr fun c hc => ?_
  rw [Event.makes, List.any_eq_true]
  rintro ⟨m, hm, hsame⟩
  have hle := copied_le_of_mem_made hm
  have hlt := hold c hc
  have hserial : m.serial = c.serial := by simpa using hsame
  omega

/-- Only serving hands out. -/
theorem handed_entries_of_ne (he : e ≠ .serve) : (b.entries e).handed = [] := by
  have hnone : (b.entries e).handed.map Handover.effect = [] := by
    rw [← deliveries_step, deliveries_step_of_ne b he]
  exact List.map_eq_nil_iff.mp hnone

theorem handedFrom_eq_nil (he : e ≠ .serve) : handedFrom id b e = [] := by
  rw [handedFrom, handed_entries_of_ne he]
  exact ite_self _

/-- Serving hands out what is first. -/
theorem handedFrom_serve (b : Broker) (id : Nat) :
    b.readyOn id = handedFrom id b .serve ++ (b.step .serve).broker.readyOn id :=
  readyOn_serve b id

theorem mem_ready_of_mem_readyOn (hc : c ∈ b.readyOn id) : c ∈ b.ready := by
  rw [readyOn] at hc
  cases hq : b.queueById? id with
  | none => simp [hq] at hc
  | some q =>
    rw [hq] at hc
    exact List.mem_flatMap.mpr ⟨q, mem_of_queueById? hq, hc⟩

theorem Bounded.readyOn (h : b.Bounded) (id : Nat) : ∀ c ∈ b.readyOn id, c.serial < b.copied :=
  fun c hc => h c (mem_ready_of_mem_readyOn hc)

/-- In every run, whatever is ready has a number that was used up. -/
theorem bounded_reached (events : List Event) : (reached events).Bounded := by
  intro c hc
  have hperm := (shifts_run keyed_empty events).serials_perm
  have hmem : c.serial ∈ ((reached events).allCopies [] (books events)).map (·.serial) :=
    List.mem_map_of_mem (by simp [allCopies, hc])
  exact List.mem_range.mp (hperm.subset hmem)

/-! ## Steps -/

/-- A new queue has nothing ready, and the others have what they had. -/
theorem readyOn_declared {name : Value} {flags : QueueFlags}
    (hqueues : b'.queues = b.queues ++ [{ id := b.declared, name, flags }]) (id : Nat) :
    b'.readyOn id = b.readyOn id := by
  rw [readyOn, readyOn, queueById?, queueById?, hqueues, List.find?_append]
  cases hq : b.queues.find? (·.id == id) with
  | some q => rfl
  | none =>
    rw [Option.none_or]
    cases hnew : [({ id := b.declared, name, flags } : Queue)].find? (·.id == id) with
    | none => rfl
    | some q =>
      rw [List.mem_singleton.mp (List.mem_of_find?_eq_some hnew)]
      rfl

/-- A queue that gets a consumer keeps what is ready. -/
theorem readyOn_joined {s : Consumer} (hqueues : b'.queues = (b.modifyQueue q.id fun q =>
      { q with consumers := q.consumers ++ [s] }).queues) (id : Nat) :
    b'.readyOn id = b.readyOn id := by
  have hid (x : Queue) :
      (if x.id = q.id then { x with consumers := x.consumers ++ [s] } else x).id = x.id := by
    split <;> rfl
  rw [readyOn, readyOn, queueById?, queueById?, hqueues, modifyQueue, List.find?_map]
  simp only [Function.comp_def, hid]
  cases b.queues.find? (·.id == id) with
  | none => rfl
  | some x =>
    simp only [Option.map_some, Option.getD_some]
    split <;> rfl

/-- What was ready and what is put on a queue is what is handed out and what is ready then. -/
def Turns (id : Nat) (b : Broker) (e : Event) : Prop :=
  b.readyOn id ++ putOn id b e = handedFrom id b e ++ (b.step e).broker.readyOn id

/-- The queue is empty after an event that drops what was ready. -/
structure Clears (id : Nat) (b : Broker) (e : Event) : Prop where
  drops : e.Drops b id
  put : putOn id b e = []
  handed : handedFrom id b e = []
  ready : (b.step e).broker.readyOn id = []

/-- Where the ready copies stay the same, nothing goes on or off the queue. -/
theorem turns_of_readyOn (hbounded : b.Bounded) (he : e ≠ .serve)
    (hsame : (b.step e).broker.readyOn id = b.readyOn id) : Turns id b e := by
  have hput : putOn id b e = [] := by
    rw [putOn, hsame]
    exact filter_makes_eq_nil (hbounded.readyOn id)
  rw [Turns, hput, handedFrom_eq_nil he, hsame, List.append_nil, List.nil_append]

/-- An event after which nothing is ready leaves nothing to be put on or handed out. -/
theorem clears_of_drops (he : e ≠ .serve) (hdrops : e.Drops b id)
    (hnone : (b.step e).broker.readyOn id = []) : Clears id b e :=
  ⟨hdrops, by rw [putOn, hnone, List.filter_nil], handedFrom_eq_nil he, hnone⟩

/-- Where queues only lose something, the ready copies stay, or go with their queue. -/
theorem turnover_of_sheds (hnamed : b.Named) (hbounded : b.Bounded) (he : e ≠ .serve)
    (h : b.Sheds (b.step e).broker) (id : Nat) : Turns id b e ∨ Clears id b e := by
  rcases h.readyOn hnamed id with hsame | hgone
  · exact .inl (turns_of_readyOn hbounded he hsame)
  · have hnone : (b.step e).broker.readyOn id = [] := by
      rw [readyOn, hgone]
      rfl
    cases hq : b.queueById? id with
    | none =>
      refine .inl (turns_of_readyOn hbounded he ?_)
      rw [hnone, readyOn, hq]
      rfl
    | some q =>
      obtain rfl : q.id = id := by simpa using List.find?_some hq
      have hmem := mem_of_queueById? hq
      refine .inr (clears_of_drops he ⟨q, hmem, rfl, .inr ?_⟩ hnone)
      refine (gone_step_iff hnamed hmem).mp fun q' hq' hid => ?_
      exact List.find?_eq_none.mp hgone q' hq' (beq_iff_eq.mpr hid)

/-- What a publish puts on a queue comes after what was ready, and is some of what it makes. -/
theorem putOn_publish {exchangeName key properties body : Value} (hbounded : b.Bounded)
    (hbroker : (b.step e).broker = (b.publish exchangeName key properties body).broker)
    (hmade : (b.entries e).made = b.published exchangeName key properties body) (id : Nat) :
    (putOn id b e).Sublist (b.entries e).made ∧
      (b.step e).broker.readyOn id = b.readyOn id ++ putOn id b e := by
  obtain ⟨news, hnews, hready⟩ := readyOn_publish b exchangeName key properties body id
  rw [← hbroker] at hready
  rw [← hmade] at hnews
  have hnew : news.filter (e.makes b) = news :=
    List.filter_eq_self.mpr fun c hc =>
      List.any_eq_true.mpr ⟨c, hnews.subset hc, beq_self_eq_true c.serial⟩
  have hput : putOn id b e = news := by
    rw [putOn, hready, List.filter_append, filter_makes_eq_nil (hbounded.readyOn id), hnew,
      List.nil_append]
  rw [hput]
  exact ⟨hnews, hready⟩

/-- Every copy of a message is put on a queue. -/
theorem exists_readyOn_copyTo (b : Broker) (c : Copy) (names : List Value) {m : Copy}
    (hm : m ∈ (List.range' b.copied ((b.copyTo c names).1.copied - b.copied)).map
      fun serial => { c with serial }) : ∃ id, m ∈ (b.copyTo c names).1.readyOn id := by
  induction names generalizing b with
  | nil => simp [copyTo] at hm
  | cons name names ih =>
    simp only [copyTo, queue] at hm ⊢
    cases hq : b.queue? name with
    | none => simp [hq] at hm
    | some q =>
      simp only [hq] at hm ⊢
      rw [range'_copyTo_append, List.map_cons, List.mem_cons] at hm
      rcases hm with rfl | hm
      · obtain ⟨news, _, hready⟩ := readyOn_copyTo (b.append q c) c names q.id
        refine ⟨q.id, ?_⟩
        rw [hready, readyOn_append (mem_of_queue? hq), if_pos rfl]
        simp
      · exact ih (b.append q c) hm

/-- Every copy that an event makes it puts on a queue. -/
theorem exists_putOn (hc : c ∈ (b.entries e).made) : ∃ id, c ∈ putOn id b e := by
  rcases entries_cases b e with
    ⟨_, _, exchangeName, key, properties, body, rfl, hbroker, hentries⟩ | rfl | honly
  · have hmade : c ∈ b.published exchangeName key properties body := by
      rw [hentries] at hc
      exact hc
    obtain ⟨id, hready⟩ : ∃ id,
        c ∈ (b.publish exchangeName key properties body).broker.readyOn id := by
      simp only [published, broker_publish, route] at hmade ⊢
      split at hmade
      · exact exists_readyOn_copyTo b _ _ hmade
      · simp at hmade
    refine ⟨id, List.mem_filter.mpr ⟨hbroker ▸ hready, ?_⟩⟩
    exact List.any_eq_true.mpr ⟨c, hc, beq_self_eq_true c.serial⟩
  · cases hc
  · rw [honly.made] at hc
    cases hc

/-- What an event puts on a queue is some of what it makes, in the same order. -/
theorem putOn_sublist (hbounded : b.Bounded) (e : Event) (id : Nat) :
    (putOn id b e).Sublist (b.entries e).made := by
  have hnone (hmade : (b.entries e).made = []) : putOn id b e = [] := by
    refine List.filter_eq_nil_iff.mpr fun c _ => ?_
    rw [Event.makes, hmade]
    exact Bool.false_ne_true
  rcases entries_cases b e with ⟨_, _, _, _, _, _, rfl, hbroker, hentries⟩ | rfl | honly
  · exact (putOn_publish hbounded hbroker (congrArg Books.made hentries) id).1
  · rw [hnone rfl]
    exact List.nil_sublist _
  · rw [hnone honly.made]
    exact List.nil_sublist _

/-- While nothing is put back, a step takes from the front of a queue and adds at its end, or drops
all that is ready there. -/
theorem turnover (hnamed : b.Named) (hbounded : b.Bounded) (hkept : e.returned b = [])
    (id : Nat) : Turns id b e ∨ Clears id b e := by
  -- `Stir` says what becomes of the queues, but not what is handed out: serving is split off first.
  by_cases he : e = .serve
  · subst he
    have hput : putOn id b .serve = [] := List.sublist_nil.mp (putOn_sublist hbounded .serve id)
    refine .inl ?_
    rw [Turns, hput, List.append_nil]
    exact handedFrom_serve b id
  have hstir := stir_step b e
  generalize hb' : (b.step e).broker = b' at hstir
  cases hstir with
  | shed h => exact turnover_of_sheds hnamed hbounded he (hb' ▸ h) id
  | returned h =>
    rw [hkept] at h
    cases h with
    | nil h => exact turnover_of_sheds hnamed hbounded he (hb' ▸ h) id
  | served hserve => exact absurd hserve he
  | declared hqueues _ _ =>
    exact .inl (turns_of_readyOn hbounded he (hb' ▸ readyOn_declared hqueues id))
  | joined _ _ hqueues _ _ =>
    exact .inl (turns_of_readyOn hbounded he (hb' ▸ readyOn_joined hqueues id))
  | @published ch number exchangeName key properties body hrequest hopen =>
    obtain ⟨c, hopen⟩ := hopen
    have hmade : (b.entries e).made = b.published exchangeName key properties body := by
      rw [hrequest]
      simp only [entries, hopen, performed]
    have hready := (putOn_publish hbounded hb' hmade id).2
    refine .inl ?_
    rw [Turns, handedFrom_eq_nil he, List.nil_append, hready]
  | @purged ch number name q hrequest hopen hq =>
    have hmem := mem_of_queue? hq
    have hready := readyOn_modifyMessages hmem (fun _ => []) id
    rw [← hb'] at hready
    by_cases hid : id = q.id
    · subst hid
      refine .inr (clears_of_drops he ⟨q, hmem, rfl, .inl ?_⟩ (hready.trans (if_pos rfl)))
      exact ⟨ch, number, name, hrequest, hopen, hq⟩
    · exact .inl (turns_of_readyOn hbounded he (hready.trans (if_neg hid)))

/-! ## Runs -/

/-- What a queue has handed out and what is ready there is some of what was put on it, in the same
order, as long as nothing is put back. -/
theorem handsOut_sublist (hkept : givenBack events = []) (id : Nat) :
    (handsOut id events ++ (reached events).readyOn id).Sublist (puts id events) := by
  induction events using List.reverseRecOn with
  | nil => exact List.Sublist.refl []
  | append_singleton u e ih =>
    obtain ⟨hbefore, hnow⟩ := givenBack_concat hkept
    have hold := ih hbefore
    rw [handsOut, puts, alongRun_concat, alongRun_concat, reached_concat]
    rcases turnover (named_reached u) (bounded_reached u) hnow id with hturns | hclears
    · have hturns : (reached u).readyOn id ++ putOn id (reached u) e =
          handedFrom id (reached u) e ++ ((reached u).step e).broker.readyOn id := hturns
      rw [List.append_assoc, ← hturns, ← List.append_assoc]
      exact hold.append (List.Sublist.refl _)
    · rw [hclears.handed, hclears.ready, hclears.put, List.append_nil, List.append_nil,
        List.append_nil]
      exact (List.sublist_append_left _ _).trans hold

/-- What is put on a queue is some of what is published, in the same order. -/
theorem puts_sublist (id : Nat) (events : List Event) :
    (puts id events).Sublist (books events).made := by
  rw [made_books]
  induction events using List.reverseRecOn with
  | nil => exact List.Sublist.refl []
  | append_singleton u e ih =>
    rw [puts, alongRun_concat, alongRun_concat]
    exact ih.append (putOn_sublist (bounded_reached u) e id)

/-- Copies are put on queues in the order of their numbers. -/
theorem puts_ascending (id : Nat) (events : List Event) :
    ((puts id events).map (·.serial)).Pairwise (· < ·) := by
  have hmade := (shifts_run keyed_empty events).numbered.2
  refine List.Pairwise.sublist ((puts_sublist id events).map _) ?_
  rw [books, hmade]
  exact List.pairwise_lt_range'

/-- Whatever was put on a queue has been handed out, or is ready, or was ready when the queue was
purged or went. -/
theorem handed_or_ready_or_dropped (hkept : givenBack events = []) (hc : c ∈ puts id events) :
    c ∈ handsOut id events ∨ c ∈ (reached events).readyOn id ∨
      ∃ u e v, events = u ++ e :: v ∧ c ∈ (reached u).readyOn id ∧ e.Drops (reached u) id := by
  induction events using List.reverseRecOn with
  | nil => cases hc
  | append_singleton u e ih =>
    obtain ⟨hbefore, hnow⟩ := givenBack_concat hkept
    rw [puts, alongRun_concat, List.mem_append] at hc
    rw [handsOut, alongRun_concat, reached_concat, List.mem_append]
    have hlater : (∃ x e' v, u = x ++ e' :: v ∧ c ∈ (reached x).readyOn id ∧
        e'.Drops (reached x) id) → ∃ x e' v, u ++ [e] = x ++ e' :: v ∧
          c ∈ (reached x).readyOn id ∧ e'.Drops (reached x) id := by
      rintro ⟨x, e', v, rfl, hready, hdrops⟩
      exact ⟨x, e', v ++ [e], by simp, hready, hdrops⟩
    rcases turnover (named_reached u) (bounded_reached u) hnow id with hturns | hclears
    · have hmem : c ∈ (reached u).readyOn id ++ putOn id (reached u) e →
          c ∈ handedFrom id (reached u) e ∨ c ∈ ((reached u).step e).broker.readyOn id := by
        rw [hturns]
        exact List.mem_append.mp
      rcases hc with hc | hc
      · rcases ih hbefore hc with hhanded | hready | hdropped
        · exact .inl (.inl hhanded)
        · exact (hmem (List.mem_append_left _ hready)).imp .inr .inl
        · exact .inr (.inr (hlater hdropped))
      · exact (hmem (List.mem_append_right _ hc)).imp .inr .inl
    · rw [hclears.put] at hc
      rcases hc with hc | hc
      · rcases ih hbefore hc with hhanded | hready | hdropped
        · exact .inl (.inl hhanded)
        · exact .inr (.inr ⟨u, e, [], rfl, hready, hclears.drops⟩)
        · exact .inr (.inr (hlater hdropped))
      · cases hc

/-- When a copy is handed out, it is the first of those that are still ready. -/
theorem first_of_handedFrom (hkept : givenBack events = []) {u v : List Event}
    (hevents : events = u ++ e :: v) {before after : List Copy}
    (hhanded : handedFrom id (reached u) e = before ++ c :: after) :
    ∃ still, (reached u).readyOn id = before ++ c :: still ∧
      ∀ c' ∈ still, c.serial < c'.serial := by
  obtain rfl : e = .serve := by
    by_contra he
    rw [handedFrom_eq_nil he] at hhanded
    simp at hhanded
  have hready : (reached u).readyOn id =
      before ++ c :: (after ++ ((reached u).step .serve).broker.readyOn id) := by
    rw [handedFrom_serve, hhanded, List.append_assoc, List.cons_append]
  refine ⟨_, hready, ?_⟩
  rw [hevents] at hkept
  have hsublist :=
    (List.sublist_append_right _ _).trans (handsOut_sublist (givenBack_append hkept) id)
  have hascending := (puts_ascending id u).sublist (hsublist.map (·.serial))
  rw [hready, List.map_append, List.map_cons] at hascending
  have hfirst := (List.pairwise_cons.mp (List.pairwise_append.mp hascending).2.1).1
  exact fun c' hc' => hfirst c'.serial (List.mem_map_of_mem hc')

/-- Everything that is published is put on queues. -/
theorem exists_puts (hc : c ∈ (books events).made) : ∃ id, c ∈ puts id events := by
  rw [made_books, mem_alongRun] at hc
  obtain ⟨u, e, v, hevents, hc⟩ := hc
  obtain ⟨id, hput⟩ := exists_putOn hc
  exact ⟨id, mem_alongRun.mpr ⟨u, e, v, hevents, hput⟩⟩

/-- Every handover is one of some queue. -/
theorem exists_handsOut {x : Handover} (hx : x ∈ (books events).handed) :
    ∃ id, x.copy ∈ handsOut id events := by
  rw [handed_books, mem_alongRun] at hx
  obtain ⟨u, e, v, rfl, hx⟩ := hx
  obtain rfl : e = .serve := by
    by_contra he
    rw [handed_entries_of_ne he] at hx
    cases hx
  cases hscheduled : (reached u).scheduled with
  | nil =>
    simp only [entries, Books.handing, served, hscheduled] at hx
    cases hx
  | cons id rest =>
    refine ⟨id, mem_alongRun.mpr ⟨u, .serve, v, rfl, ?_⟩⟩
    rw [handedFrom, hscheduled, List.head?_cons, if_pos rfl]
    exact List.mem_map_of_mem hx

/-- Queues are lines: what is published is put on queues in the order of the publishes, and handed
out from the front, each copy once. -/
structure InOrder (events : List Event) : Prop where
  /-- Each copy that is published is put on a queue. -/
  placed : ∀ c ∈ (books events).made, ∃ id, c ∈ puts id events
  /-- What was put on a queue was published, in that order. -/
  published : ∀ id, (puts id events).Sublist (books events).made
  ascending : ∀ id, ((puts id events).map (·.serial)).Pairwise (· < ·)
  /-- Users of channels hear of each handover, in order. -/
  delivered : (emitted events).filter Effect.isDelivery =
    (books events).handed.map Handover.effect
  /-- What is handed out comes from some queue. -/
  handed : ∀ x ∈ (books events).handed, ∃ id, x.copy ∈ handsOut id events
  /-- A queue hands out what was put on it in the same order, and what is ready comes next. -/
  ordered : ∀ id, (handsOut id events ++ (reached events).readyOn id).Sublist (puts id events)
  /-- A copy that is handed out is the first of those that are still ready. -/
  first : ∀ id u e v, events = u ++ e :: v → ∀ before c after,
    handedFrom id (reached u) e = before ++ c :: after →
      ∃ still, (reached u).readyOn id = before ++ c :: still ∧ ∀ c' ∈ still, c.serial < c'.serial
  /-- What is missing was ready when the queue was purged or went. -/
  gaps : ∀ id, ∀ c ∈ puts id events, c ∈ handsOut id events ∨ c ∈ (reached events).readyOn id ∨
    ∃ u e v, events = u ++ e :: v ∧ c ∈ (reached u).readyOn id ∧ e.Drops (reached u) id

/-- Queues are lines as long as nothing is put back. -/
theorem inOrder_reached (hkept : givenBack events = []) : InOrder events where
  placed _ hc := exists_puts hc
  published id := puts_sublist id events
  ascending id := puts_ascending id events
  delivered := deliveries_emittedFrom {} events
  handed _ hx := exists_handsOut hx
  ordered id := handsOut_sublist hkept id
  first _ _ _ _ hevents _ _ _ hhanded := first_of_handedFrom hkept hevents hhanded
  gaps _ _ hc := handed_or_ready_or_dropped hkept hc

end Broker

end Amqp
