import Amqp.Proofs.Broker.FirstInFirstOut
import Amqp.Proofs.Broker.PutBack

/-!
# Where copies come from and where they go back to

What waits on a channel was handed out by the queue whose number the entry has, and whose name. It
is put back by that name: what a queue gets back it once handed out itself, or it has the name of
the queue that did. `refills_step` says so of every event that puts copies back, and says that a
queue of the name gets them all.
-/

namespace Amqp.Broker

/-- The copies that wait on channels. -/
def owed (b : Broker) : List Unacked := b.channels.flatMap fun c => c.unacked.map (·.2)

/-- The copy came from the queue, or from one that had its name. -/
def Queue.Receives (q : Queue) (x : Unacked) : Prop :=
  x.origin = q.id ∨ q.name.sameKey x.queue = true

/-- What has become of a queue once copies are put back: what was ready is, and so are all the
copies that came from a queue of its name, and nothing else but copies that it may receive. -/
structure Queue.Refilled (us : List Unacked) (q q' : Queue) : Prop where
  id : q'.id = q.id
  name : q'.name = q.name
  kept : q.messages ⊆ q'.messages
  got : ∀ c ∈ q'.messages, c ∈ q.messages ∨ ∃ x ∈ us, q'.Receives x ∧ c = x.copy.marked
  named : ∀ x ∈ us, q'.name.sameKey x.queue = true → x.copy.marked ∈ q'.messages

/-- Every queue that is left was there before, and has been refilled. -/
def Refills (us : List Unacked) (b b' : Broker) : Prop :=
  ∀ q' ∈ b'.queues, ∃ q ∈ b.queues, q.Refilled us q'

variable {b b' b₁ : Broker} {e : Event} {ch number id bound : Nat} {q q' q₁ : Queue} {c : Copy}
  {x : Unacked} {us vs : List Unacked} {hand hand' : List Unacked} {s : Books}

/-! ## Putting copies back -/

theorem Queue.Receives.congr (hid : q'.id = q.id) (hname : q'.name = q.name) (h : q.Receives x) :
    q'.Receives x := by
  rw [Queue.Receives, hid, hname]
  exact h

theorem Queue.Refilled.refl (q : Queue) : q.Refilled [] q :=
  ⟨rfl, rfl, List.Subset.refl _, fun _ hc => .inl hc, List.forall_mem_nil _⟩

theorem Queue.Refilled.trans (h : q.Refilled us q₁) (h' : q₁.Refilled vs q') :
    q.Refilled (us ++ vs) q' := by
  refine ⟨h'.id.trans h.id, h'.name.trans h.name, List.Subset.trans h.kept h'.kept,
    fun c hc => ?_, ?_⟩
  · rcases h'.got c hc with hc | ⟨x, hx, hreceives, hcopy⟩
    · rcases h.got c hc with hc | ⟨x, hx, hreceives, hcopy⟩
      · exact .inl hc
      · exact .inr ⟨x, List.mem_append_left _ hx, hreceives.congr h'.id h'.name, hcopy⟩
    · exact .inr ⟨x, List.mem_append_right _ hx, hreceives, hcopy⟩
  · intro x hx hname
    rcases List.mem_append.mp hx with hx | hx
    · exact h'.kept (h.named x hx (h'.name ▸ hname))
    · exact h'.named x hx hname

theorem Refills.refl (b : Broker) : Refills [] b b := fun q hq => ⟨q, hq, .refl q⟩

theorem Refills.trans (h : Refills us b b₁) (h' : Refills vs b₁ b') :
    Refills (us ++ vs) b b' := by
  intro q' hq'
  obtain ⟨q₁, hq₁, hlast⟩ := h' q' hq'
  obtain ⟨q, hq, hfirst⟩ := h q₁ hq₁
  exact ⟨q, hq, hfirst.trans hlast⟩

theorem mem_boundFor {es : List (Nat × Unacked)} :
    c ∈ b.boundFor id es ↔ ∃ x ∈ es.map (·.2), b.destination? x = some id ∧ c = x.copy.marked := by
  simp only [boundFor, List.mem_map, List.mem_filter, beq_iff_eq, exists_exists_and_eq_and]
  constructor
  · rintro ⟨y, ⟨hy, hdest⟩, rfl⟩
    exact ⟨y, hy, hdest, rfl⟩
  · rintro ⟨y, hy, hdest, rfl⟩
    exact ⟨y, ⟨hy, hdest⟩, rfl⟩

/-- A copy goes to the queue of its name, or to the one that it came from. -/
theorem receives_of_destination? (hnamed : b.Named) (hq : q ∈ b.queues)
    (h : b.destination? x = some q.id) : q.Receives x := by
  rw [destination?] at h
  cases hname : b.queue? x.queue with
  | some p =>
    rw [hname] at h
    obtain ⟨hp, hsame⟩ := hnamed.queue?_eq_some_iff.mp hname
    exact .inr (hnamed.eq_of_id hp hq (Option.some.inj h) ▸ hsame)
  | none =>
    rw [hname] at h
    obtain ⟨p, hp, hid⟩ := Option.map_eq_some_iff.mp h
    have horigin : p.id = x.origin := by simpa using List.find?_some hp
    exact .inl (horigin.symm.trans hid)

theorem destination?_of_sameKey (hnamed : b.Named) (hq : q ∈ b.queues)
    (hname : q.name.sameKey x.queue = true) : b.destination? x = some q.id := by
  rw [destination?, hnamed.queue?_eq_some_iff.mpr ⟨hq, hname⟩]
  rfl

/-- A queue that is left where consumers were taken off was there before. -/
theorem Relieved.exists_queue {rs : List Registered} (h : Relieved rs b b')
    (hq' : q' ∈ b'.queues) : ∃ q ∈ b.queues, q'.id = q.id ∧ q'.name = q.name := by
  have hshell : q'.shell ∈ b.shells.filterMap (·.without? rs) :=
    h.shells ▸ List.mem_map_of_mem hq'
  obtain ⟨y, hy, hleft⟩ := List.mem_filterMap.mp hshell
  obtain ⟨q, hq, rfl⟩ := List.mem_map.mp hy
  have hleft := Queue.of_without? hleft
  refine ⟨q, hq, ?_, ?_⟩
  · rw [← Queue.shell_id q', hleft, Queue.shell_id]
  · rw [← Queue.shell_name q', hleft, Queue.shell_name]

/-- Queues that get their parts back are refilled. -/
theorem refills_of_arranged {rs : List Registered} {es : List (Nat × Unacked)} (hnamed : b.Named)
    (hrelieved : Relieved rs b b') (h : Arranged b es.reverse b') :
    Refills (es.map (·.2)) b b' := by
  intro q' hq'
  obtain ⟨q, hq, hid, hname⟩ := hrelieved.exists_queue hq'
  have hmessages : q'.messages = b'.boundFor q'.id es.reverse ++ q.messages := by
    rw [h q' hq', hid, hnamed.readyOn_eq hq]
  have hnamed' := hrelieved.named hnamed
  refine ⟨q, hq, hid, hname, ?_, fun c hc => ?_, fun x hx hsame => ?_⟩
  · rw [hmessages]
    exact List.subset_append_right _ _
  · rw [hmessages] at hc
    rcases List.mem_append.mp hc with hc | hc
    · obtain ⟨x, hx, hdest, hcopy⟩ := mem_boundFor.mp hc
      rw [List.map_reverse, List.mem_reverse] at hx
      exact .inr ⟨x, hx, receives_of_destination? hnamed' hq' hdest, hcopy⟩
    · exact .inl hc
  · rw [hmessages]
    refine List.mem_append_left _ (mem_boundFor.mpr ⟨x, ?_, ?_, rfl⟩)
    · rw [List.map_reverse, List.mem_reverse]
      exact hx
    · exact destination?_of_sameKey hnamed' hq' hsame

/-- What is put back after a change to a channel refills the queues. -/
theorem refills_requeue (hnamed : b.Named) {f : Channel → Channel}
    (hf : ∀ c, (f c).closed = c.closed ∧ (f c).consumers = c.consumers) (us : List Unacked) :
    Refills us b ((b.modifyChannel ch f).requeue us) := by
  have harranged := arranged_requeue hnamed (hnamed.modifyChannel ch f) (.modifyChannel b ch f)
    (us.map ((0, ·)))
  have hus : (us.map ((0, ·))).map (·.2) = us := by
    rw [List.map_map]
    exact List.map_id us
  have halike : b.Alike ((b.modifyChannel ch f).requeue us) :=
    (alike_modifyChannel hf).trans (alike_requeue _ us)
  rw [← hus] at halike ⊢
  exact refills_of_arranged hnamed (Relieved.of_alike halike) harranged

/-- A channel that ends refills the queues with what waits on it. -/
theorem refills_terminate (hnamed : b.Named) (ch : Nat) (error : Option Value) :
    Refills (b.held ch) b (b.terminate ch error).1 := by
  cases hopen : b.openChannel ch with
  | error f =>
    simp only [held, terminate, hopen]
    exact .refl b
  | ok c =>
    have harranged := arranged_terminate hnamed ⟨c, hopen⟩ error
    rw [unackedOn_of_open hopen] at harranged
    simp only [held, hopen]
    exact refills_of_arranged hnamed (relieved_terminate hnamed ch error) harranged

/-- Channels that end one after the other refill the queues with all that waits on them. -/
theorem refills_terminates (hnamed : b.Named) (error : Option Value) {chs : List Nat}
    (hchs : chs.Nodup) :
    Refills (chs.flatMap b.held) b (chs.foldl (fun b ch => (b.terminate ch error).1) b) := by
  induction chs generalizing b with
  | nil => exact .refl b
  | cons ch chs ih =>
    obtain ⟨hnew, hchs⟩ := List.nodup_cons.mp hchs
    have hheld : chs.flatMap (b.terminate ch error).1.held = chs.flatMap b.held := by
      refine List.flatMap_congr fun ch' hch' => held_terminate_of_ne ?_ error
      rintro rfl
      exact hnew hch'
    have hrest := ih ((relieved_terminate hnamed ch error).named hnamed) hchs
    rw [hheld] at hrest
    exact (refills_terminate hnamed ch error).trans hrest

/-- A channel that is asked to end, and can tell so, refills the queues with what waits on it. -/
theorem refills_endChannel (hnamed : b.Named) {verb : String} {params : Option Value}
    (hok : (callText verb params).isOk = true) :
    Refills (b.held ch) b (b.endChannel ch verb params).broker := by
  simp only [endChannel]
  cases htext : callText verb params with
  | error thrown =>
    rw [htext] at hok
    cases hok
  | ok text =>
    have hheld : (b.modifyChannel ch fun c => { c with calls := c.calls ++ [text] }).held ch =
        b.held ch := by
      rw [held, openChannel_modifyChannel (by exact fun _ => rfl), held]
      cases b.openChannel ch <;> rfl
    have hended := refills_terminate
      (hnamed.modifyChannel ch fun c => { c with calls := c.calls ++ [text] }) ch none
    rw [hheld] at hended
    revert hended
    simp only [terminate]
    cases Broker.openChannel _ ch <;> exact fun h => h

/-- Every event that puts copies back refills the queues with them. -/
theorem refills_step (hnamed : b.Named) (hback : e.returned b ≠ []) :
    Refills (e.returned b) b (b.step e).broker := by
  -- A channel that is closed already is asked in the same way, and gives nothing back.
  have hends (ch : Nat) (verb : String) (params : Option Value)
      (hback : (if (callText verb params).isOk then b.held ch else []) ≠ []) :
      Refills (if (callText verb params).isOk then b.held ch else []) b
        (b.endChannel ch verb params).broker := by
    cases hok : (callText verb params).isOk with
    | false =>
      rw [hok] at hback
      exact absurd rfl hback
    | true => exact refills_endChannel hnamed hok
  cases e with
  | request ch number p =>
    cases p with
    | close params =>
      simp only [step, request]
      cases b.openChannel ch <;> exact hends ch "close" params hback
    | abort params =>
      simp only [step, request]
      cases b.openChannel ch <;> exact hends ch "abort" params hback
    | basicNack tag multiple requeue =>
      cases hopen : b.openChannel ch with
      | error f => simp [Event.returned, settle, Bind.bind, Except.bind, hopen] at hback
      | ok c =>
        simp only [step, request, hopen, perform]
        simp only [Event.returned] at hback ⊢
        cases hsettle : b.settle ch tag multiple.isTruthy with
        | error f => simp [hsettle] at hback
        | ok p =>
          obtain ⟨b₁, us⟩ := p
          obtain ⟨_, rest, _, _, rfl, _⟩ := settle_eq_ok hsettle
          cases hrequeue : requeue.isTruthy with
          | false => simp [hsettle, hrequeue] at hback
          | true => exact refills_requeue hnamed (by exact fun _ => ⟨rfl, rfl⟩) us
    | _ => exact absurd rfl hback
  | disconnect error =>
    have hended :=
      refills_terminates hnamed (some error) (List.nodup_range (n := b.channels.length))
    rw [← fst_disconnect] at hended
    exact hended
  | _ => exact absurd rfl hback

/-! ## Where copies come from -/

theorem mem_owed : x ∈ b.owed ↔ ∃ c ∈ b.channels, ∃ tag, (tag, x) ∈ c.unacked := by
  simp only [owed, List.mem_flatMap, List.mem_map, Prod.exists, exists_eq_right]

theorem held_subset_owed (b : Broker) (ch : Nat) : b.held ch ⊆ b.owed := by
  rw [held]
  cases hopen : b.openChannel ch with
  | error f => exact List.nil_subset _
  | ok c =>
    have hc := List.mem_of_getElem? (openChannel_eq_ok.mp hopen).1
    exact fun x hx => List.mem_flatMap.mpr ⟨c, hc, hx⟩

/-- Only copies that wait on channels are put back. -/
theorem returned_subset_owed (hkeyed : b.Keyed) (e : Event) : e.returned b ⊆ b.owed := by
  have hends (ch : Nat) (t : Bool) : (if t then b.held ch else []) ⊆ b.owed := by
    cases t with
    | true => exact held_subset_owed b ch
    | false => exact List.nil_subset _
  cases e with
  | request ch number p =>
    cases p with
    | close params => exact hends ch _
    | abort params => exact hends ch _
    | basicNack tag multiple requeue =>
      simp only [Event.returned]
      cases hsettle : b.settle ch tag multiple.isTruthy with
      | error f => exact List.nil_subset _
      | ok p =>
        obtain ⟨c, rest, hc, _, _, hperm⟩ := settle_eq_ok hsettle
        have hc := List.mem_of_getElem? hc
        have hus : p.2 ⊆ b.owed := fun x hx => List.mem_flatMap.mpr
          ⟨c, hc, (hperm (hkeyed.tagged c hc)).mem_iff.mpr (List.mem_append_left _ hx)⟩
        simp only []
        split
        · exact hus
        · exact List.nil_subset _
    | _ => exact List.nil_subset _
  | disconnect error =>
    intro x hx
    obtain ⟨ch, _, hx⟩ := List.mem_flatMap.mp hx
    exact held_subset_owed b ch hx
  | _ => exact List.nil_subset _

theorem Still.trans (h : b.Still b₁) (h' : b₁.Still b') : b.Still b' := by
  refine ⟨Nat.le_trans h.length h'.length, fun ch c' hc' => ?_⟩
  rcases h'.channels ch c' hc' with ⟨hnone, hnew⟩ | ⟨c₁, hc₁, hnext₁, hsublist₁⟩
  · have hnone : b.channels[ch]? = none :=
      List.getElem?_eq_none (Nat.le_trans h.length (List.getElem?_eq_none_iff.mp hnone))
    exact .inl ⟨hnone, hnew⟩
  · rcases h.channels ch c₁ hc₁ with ⟨hnone, hnext, hempty⟩ | ⟨c, hc, hnext, hsublist⟩
    · rw [hempty] at hsublist₁
      exact .inl ⟨hnone, hnext₁.trans hnext, List.sublist_nil.mp hsublist₁⟩
    · exact .inr ⟨c, hc, hnext₁.trans hnext, hsublist₁.trans hsublist⟩

/-- Shifts that hand out nothing leave the channels still. -/
theorem Shifts.still (h : Shifts b hand b' hand' s) (hnone : s.handed = []) : b.Still b' := by
  induction h with
  | refl => exact .refl b
  | next _ hshift ih =>
    rw [Books.handed_append, List.append_eq_nil_iff] at hnone
    rcases hshift.still_or_handed with ⟨_, hstill⟩ | ⟨_, _, _, _, _, _, hone⟩
    · exact (ih hnone.1).trans hstill
    · rw [hone] at hnone
      cases hnone.2

/-- Nothing new waits on channels that are still. -/
theorem Still.owed_subset (h : b.Still b') : b'.owed ⊆ b.owed := by
  intro x hx
  obtain ⟨c', hc', tag, hx⟩ := mem_owed.mp hx
  obtain ⟨ch, hc'⟩ := List.getElem?_of_mem hc'
  rcases h.channels ch c' hc' with ⟨_, _, hempty⟩ | ⟨c, hc, _, hsublist⟩
  · rw [hempty] at hx
    cases hx
  · exact mem_owed.mpr ⟨c, List.mem_of_getElem? hc, tag, hsublist.subset hx⟩

/-- A queue that is the same but for its copies was there before. -/
theorem Alike.exists_shell (h : b.Alike b') (hq' : q' ∈ b'.queues) :
    ∃ q ∈ b.queues, q.shell = q'.shell := by
  have hshell : q'.shell ∈ b.shells := h.shells ▸ List.mem_map_of_mem hq'
  exact List.mem_map.mp hshell

/-- With a handover at most its copy comes to wait, under the number and the name of the queue. -/
theorem of_mem_owed_handedTo {h : Handover} (hx : x ∈ (b.handedTo q h).owed) :
    x ∈ b.owed ∨ x = ⟨q.name, q.id, h.copy⟩ := by
  obtain ⟨c', hc', tag, hx⟩ := mem_owed.mp hx
  rcases mem_modifyChannel hc' with hc' | ⟨c, hc, rfl⟩
  · exact .inl (mem_owed.mpr ⟨c', hc', tag, hx⟩)
  · have hold (hx : (tag, x) ∈ c.unacked) : x ∈ b.owed :=
      mem_owed.mpr ⟨c, List.mem_of_getElem? hc, tag, hx⟩
    cases hmode : h.consumer.mode with
    | auto => exact .inl (hold (by simpa [hmode] using hx))
    | manual =>
      simp only [hmode, List.mem_append, List.mem_singleton, Prod.mk.injEq] at hx
      exact hx.imp hold And.right

/-- What a queue hands out goes to its consumers. -/
theorem exists_of_mem_handovers {h : Handover} (hh : h ∈ b.handovers id bound) :
    ∃ q ∈ b.queues, q.id = id ∧ h.consumer ∈ q.consumers := by
  induction bound generalizing b with
  | zero => cases hh
  | succ bound ih =>
    simp only [handovers] at hh
    cases hout : b.handOut? id with
    | none => simp [hout] at hh
    | some next =>
      obtain ⟨b', _⟩ := next
      obtain ⟨q, copy, rest, s, c, hq, _, hs, _, hnext, _, rfl⟩ := handOut?_eq_some hout
      obtain rfl : q.id = id := by simpa using List.find?_some hq
      simp only [hout, hnext, List.mem_cons] at hh
      rcases hh with rfl | hh
      · exact ⟨q, mem_of_queueById? hq, rfl, hs⟩
      · obtain ⟨q', hq', hid, hmem⟩ := ih hh
        obtain ⟨q₀, hq₀, hid₀, hsame⟩ := (alike_handedTo b q _).exists_queue hq'
        exact ⟨q₀, hq₀, hid₀.trans hid, hsame ▸ hmem⟩

/-- What comes to wait while a queue hands out is what it hands out. -/
theorem of_mem_owed_handOut (hx : x ∈ (b.handOut id bound).1.owed) :
    x ∈ b.owed ∨ ∃ q ∈ b.queues, q.id = id ∧
      ∃ h ∈ b.handovers id bound, x = ⟨q.name, q.id, h.copy⟩ := by
  induction bound generalizing b with
  | zero => exact .inl hx
  | succ bound ih =>
    simp only [handOut, handovers] at hx ⊢
    cases hout : b.handOut? id with
    | none =>
      simp only [hout] at hx
      exact .inl hx
    | some next =>
      obtain ⟨b', _⟩ := next
      obtain ⟨q, copy, rest, s, c, hq, _, _, _, hnext, _, rfl⟩ := handOut?_eq_some hout
      obtain rfl : q.id = id := by simpa using List.find?_some hq
      simp only [hout] at hx
      simp only [hnext]
      rcases ih hx with hx | ⟨q', hq', hid, h, hh, rfl⟩
      · refine (of_mem_owed_handedTo hx).imp_right fun hcopy => ?_
        exact ⟨q, mem_of_queueById? hq, rfl, _, List.mem_cons_self .., hcopy⟩
      -- The rest is handed out by what the first handover left of the queue.
      · obtain ⟨q₀, hq₀, hshell⟩ := (alike_handedTo b q _).exists_shell hq'
        have hid₀ : q₀.id = q'.id := by rw [← Queue.shell_id q₀, hshell, Queue.shell_id]
        have hname₀ : q₀.name = q'.name := by rw [← Queue.shell_name q₀, hshell, Queue.shell_name]
        refine .inr ⟨q₀, hq₀, hid₀.trans hid, h, List.mem_cons_of_mem _ hh, ?_⟩
        rw [hname₀, hid₀]

/-- The queue that is scheduled next is served to its consumers. -/
theorem exists_of_mem_served {h : Handover} (hh : h ∈ b.served) :
    ∃ q ∈ b.queues, b.scheduled.head? = some q.id ∧ h.consumer ∈ q.consumers := by
  rw [served] at hh
  split at hh
  · cases hh
  · rename_i id rest hscheduled
    simp only [] at hh
    split at hh
    · cases hh
    · obtain ⟨q, hq, rfl, hmem⟩ := exists_of_mem_handovers hh
      exact ⟨q, hq, by rw [hscheduled, List.head?_cons], hmem⟩

/-- What comes to wait while the queue that is scheduled next is served is what it hands out. -/
theorem of_mem_owed_serve (hx : x ∈ b.serve.1.owed) :
    x ∈ b.owed ∨ ∃ q ∈ b.queues, b.scheduled.head? = some q.id ∧
      ∃ h ∈ b.served, x = ⟨q.name, q.id, h.copy⟩ := by
  rw [serve] at hx
  rw [served]
  cases hscheduled : b.scheduled with
  | nil =>
    simp only [hscheduled] at hx
    exact .inl hx
  | cons id rest =>
    simp only [hscheduled] at hx
    simp only []
    cases hq : ({ b with scheduled := rest } : Broker).queueById? id with
    | none =>
      simp only [hq] at hx
      exact .inl hx
    | some q₀ =>
      simp only [hq] at hx
      refine (of_mem_owed_handOut hx).imp_right ?_
      rintro ⟨q, hmem, rfl, hsource⟩
      exact ⟨q, hmem, List.head?_cons, hsource⟩

/-- What comes to wait with an event was handed out by a queue, whose number and name it has. -/
theorem owed_step (hkeyed : b.Keyed) (hx : x ∈ (b.step e).broker.owed) :
    x ∈ b.owed ∨ ∃ q ∈ b.queues, q.id = x.origin ∧ q.name = x.queue ∧
      x.copy ∈ handedFrom q.id b e := by
  by_cases he : e = .serve
  · subst he
    refine (of_mem_owed_serve hx).imp_right ?_
    rintro ⟨q, hq, hnext, h, hh, rfl⟩
    refine ⟨q, hq, rfl, rfl, ?_⟩
    rw [handedFrom, if_pos hnext]
    exact List.mem_map_of_mem hh
  · have hshifts : Shifts b [] (b.step e).broker [] (b.entries e) := shifts_step hkeyed e
    exact .inl ((hshifts.still (handed_entries_of_ne he)).owed_subset hx)

end Amqp.Broker
