import Amqp.Proofs.Broker.Changes
import Amqp.Proofs.Broker.Runs

/-!
# What a step does to the copies that are ready

Most operations leave alone what is ready on a queue, unless the queue goes, and schedule nothing.
`Stir` lists what else an event can do: declare a queue, start a consumer, purge, publish, put
copies back, and serve. `stir_step` proves the list complete, whatever consumers are started.
-/

namespace Amqp.Broker

variable {b b' b₁ : Broker} {e : Event} {ch number : Nat} {f : Channel → Channel} {q : Queue}
  {c : Channel} {u : Unacked} {us vs : List Unacked}

/-! ## Queues that are the same but for their copies -/

/-- A queue was there before with the same consumers. -/
theorem Alike.exists_queue (h : b.Alike b') {q' : Queue} (hq' : q' ∈ b'.queues) :
    ∃ q ∈ b.queues, q.id = q'.id ∧ q.consumers = q'.consumers := by
  have hshell : q'.shell ∈ b.shells := h.shells ▸ List.mem_map_of_mem hq'
  obtain ⟨q, hq, hsame⟩ := List.mem_map.mp hshell
  refine ⟨q, hq, ?_, ?_⟩
  · rw [← Queue.shell_id q, hsame, Queue.shell_id]
  · rw [← Queue.shell_consumers q, hsame, Queue.shell_consumers]

theorem Alike.symm (h : b.Alike b') : b'.Alike b :=
  ⟨h.shells.symm, h.declared.symm, h.exchanges.symm, fun ch => (h.registry ch).symm⟩

theorem Alike.named (h : b.Alike b') (hb : b.Named) : b'.Named := (Relieved.of_alike h).named hb

/-! ## The copies of one queue -/

/-- The copies that are ready on the queue with that number, if there is one. -/
def readyOn (b : Broker) (id : Nat) : List Copy := ((b.queueById? id).map (·.messages)).getD []

/-- Queues have numbers of their own. -/
theorem Named.queueById?_eq (h : b.Named) (hq : q ∈ b.queues) : b.queueById? q.id = some q := by
  obtain ⟨q', hq'⟩ : ∃ q', b.queueById? q.id = some q' :=
    Option.isSome_iff_exists.mp (List.find?_isSome.mpr ⟨q, hq, beq_self_eq_true q.id⟩)
  have hid : q'.id = q.id := by simpa using List.find?_some hq'
  rw [hq', h.eq_of_id (mem_of_queueById? hq') hq hid]

theorem Named.readyOn_eq (h : b.Named) (hq : q ∈ b.queues) : b.readyOn q.id = q.messages := by
  rw [readyOn, h.queueById?_eq hq, Option.map_some, Option.getD_some]

/-- A change of the copies on a queue changes what is ready there. -/
theorem readyOn_modifyMessages (hq : q ∈ b.queues) (g : List Copy → List Copy) (id : Nat) :
    (b.modifyQueue q.id fun q => { q with messages := g q.messages }).readyOn id =
      if id = q.id then g (b.readyOn id) else b.readyOn id := by
  have hsome : ∃ q', b.queueById? q.id = some q' :=
    Option.isSome_iff_exists.mp (List.find?_isSome.mpr ⟨q, hq, beq_self_eq_true q.id⟩)
  have hid (q' : Queue) :
      (if q'.id = q.id then { q' with messages := g q'.messages } else q').id = q'.id := by
    split <;> rfl
  have hfind (id : Nat) : (b.modifyQueue q.id fun q =>
      { q with messages := g q.messages }).queueById? id = (b.queueById? id).map fun q' =>
        if q'.id = q.id then { q' with messages := g q'.messages } else q' := by
    simp only [queueById?, modifyQueue, List.find?_map, Function.comp_def, hid]
  rw [readyOn, hfind, readyOn]
  split
  · rename_i hsame
    obtain ⟨q', hq'⟩ := hsome
    have hid' : q'.id = q.id := by simpa using List.find?_some hq'
    simp [hsame, hq', hid']
  · rename_i hne
    cases hq' : b.queueById? id with
    | none => rfl
    | some q' =>
      have hid' : q'.id = id := by simpa using List.find?_some hq'
      simp [hid', hne]

theorem readyOn_append (hq : q ∈ b.queues) (c : Copy) (id : Nat) :
    (b.append q c).readyOn id =
      if id = q.id then b.readyOn id ++ [{ c with serial := b.copied }] else b.readyOn id :=
  readyOn_modifyMessages hq (fun copies => copies ++ [({ c with serial := b.copied } : Copy)]) id

/-- A message that is copied to queues comes after what is ready there. -/
theorem readyOn_copyTo (b : Broker) (c : Copy) (names : List Value) (id : Nat) :
    ∃ news, news.Sublist
        ((List.range' b.copied ((b.copyTo c names).1.copied - b.copied)).map fun serial =>
          { c with serial }) ∧
      (b.copyTo c names).1.readyOn id = b.readyOn id ++ news := by
  induction names generalizing b with
  | nil => exact ⟨[], List.nil_sublist _, (List.append_nil _).symm⟩
  | cons name names ih =>
    simp only [copyTo, queue]
    cases hq : b.queue? name with
    | none => exact ⟨[], List.nil_sublist _, (List.append_nil _).symm⟩
    | some q =>
      simp only []
      obtain ⟨news, hnews, hready⟩ := ih (b.append q c)
      rw [range'_copyTo_append, List.map_cons, hready, readyOn_append (mem_of_queue? hq)]
      split
      · exact ⟨{ c with serial := b.copied } :: news, hnews.cons_cons _, by simp⟩
      · exact ⟨news, hnews.cons _, rfl⟩

/-- What is published comes after what is ready. -/
theorem readyOn_publish (b : Broker) (exchangeName key properties body : Value) (id : Nat) :
    ∃ news, news.Sublist (b.published exchangeName key properties body) ∧
      (b.publish exchangeName key properties body).broker.readyOn id = b.readyOn id ++ news := by
  simp only [published, broker_publish, route]
  split
  · exact readyOn_copyTo b ⟨0, exchangeName, key, properties, bytesOf body, false⟩ _ id
  · exact ⟨[], List.nil_sublist _, (List.append_nil _).symm⟩

/-- Serving a queue hands out what is ready on it, first one first. -/
theorem readyOn_handOut (b : Broker) (id bound : Nat) :
    b.readyOn id = (b.handovers id bound).map (·.copy) ++ (b.handOut id bound).1.readyOn id := by
  induction bound generalizing b with
  | zero => rfl
  | succ bound ih =>
    simp only [handOut, handovers]
    cases h : b.handOut? id with
    | none => rfl
    | some next =>
      obtain ⟨b', _⟩ := next
      obtain ⟨q, copy, rest, s, c, hq, hmessages, _, _, hnext, _, rfl⟩ := handOut?_eq_some h
      obtain rfl : q.id = id := by simpa using List.find?_some hq
      have htaken : (b.handedTo q ⟨copy, c.nextTag, s⟩).readyOn q.id = (b.readyOn q.id).tail :=
        (readyOn_modifyMessages (mem_of_queueById? hq) List.tail q.id).trans (if_pos rfl)
      have hready : b.readyOn q.id = copy :: rest := by
        rw [readyOn, hq, Option.map_some, Option.getD_some, hmessages]
      simp only [hnext, List.map_cons, List.cons_append, ← ih, htaken, hready, List.tail_cons]

/-- Serving a queue leaves the others alone. -/
theorem readyOn_handOut_of_ne {id id' : Nat} (hne : id' ≠ id) (bound : Nat) :
    (b.handOut id bound).1.readyOn id' = b.readyOn id' := by
  induction bound generalizing b with
  | zero => rfl
  | succ bound ih =>
    simp only [handOut]
    cases h : b.handOut? id with
    | none => rfl
    | some next =>
      obtain ⟨b', _⟩ := next
      obtain ⟨q, copy, rest, s, c, hq, _, _, _, _, _, rfl⟩ := handOut?_eq_some h
      obtain rfl : q.id = id := by simpa using List.find?_some hq
      refine ih.trans ?_
      exact (readyOn_modifyMessages (mem_of_queueById? hq) List.tail id').trans (if_neg hne)

/-- Serving the next scheduled queue hands out what is ready on it, and nothing else. -/
theorem readyOn_serve (b : Broker) (id : Nat) :
    b.readyOn id = (if b.scheduled.head? = some id then b.served.map (·.copy) else []) ++
      b.serve.1.readyOn id := by
  simp only [serve, served]
  cases hscheduled : b.scheduled with
  | nil => simp
  | cons first rest =>
    have hsame : ({ b with scheduled := rest } : Broker).readyOn id = b.readyOn id := rfl
    simp only [List.head?_cons, Option.some.injEq]
    cases hq : ({ b with scheduled := rest } : Broker).queueById? first with
    | none => simp [hsame]
    | some q =>
      simp only []
      by_cases hfirst : first = id
      · subst hfirst
        rw [if_pos rfl, ← readyOn_handOut, hsame]
      · rw [if_neg hfirst, readyOn_handOut_of_ne (Ne.symm hfirst), hsame, List.nil_append]

/-! ## Queues that only lose something -/

/-- Queues have at most gone or lost consumers; those that are left have the same copies ready. -/
structure Sheds (b b' : Broker) : Prop where
  ready : ∀ q' ∈ b'.queues, ∃ q ∈ b.queues, q.id = q'.id ∧ q'.messages = q.messages
  consumers : ∀ q' ∈ b'.queues, ∃ q ∈ b.queues, q.id = q'.id ∧ q'.consumers ⊆ q.consumers
  scheduled : b'.scheduled = b.scheduled
  channels : b.channels.length ≤ b'.channels.length

namespace Sheds

theorem of_queues (hqueues : b'.queues = b.queues) (hscheduled : b'.scheduled = b.scheduled)
    (hchannels : b.channels.length ≤ b'.channels.length) : b.Sheds b' :=
  ⟨fun q' hq' => ⟨q', hqueues ▸ hq', rfl, rfl⟩,
    fun q' hq' => ⟨q', hqueues ▸ hq', rfl, List.Subset.refl _⟩, hscheduled, hchannels⟩

theorem refl (b : Broker) : b.Sheds b := of_queues rfl rfl (Nat.le_refl _)

theorem trans (h : b.Sheds b₁) (h' : b₁.Sheds b') : b.Sheds b' := by
  refine ⟨fun q' hq' => ?_, fun q' hq' => ?_, h'.scheduled.trans h.scheduled,
    Nat.le_trans h.channels h'.channels⟩
  · obtain ⟨q₁, hq₁, hid₁, hsame₁⟩ := h'.ready q' hq'
    obtain ⟨q, hq, hid, hsame⟩ := h.ready q₁ hq₁
    exact ⟨q, hq, hid.trans hid₁, hsame₁.trans hsame⟩
  · obtain ⟨q₁, hq₁, hid₁, hsubset₁⟩ := h'.consumers q' hq'
    obtain ⟨q, hq, hid, hsubset⟩ := h.consumers q₁ hq₁
    exact ⟨q, hq, hid.trans hid₁, List.Subset.trans hsubset₁ hsubset⟩

theorem modifyChannel (b : Broker) (ch : Nat) (f : Channel → Channel) :
    b.Sheds (b.modifyChannel ch f) :=
  of_queues rfl rfl (by simp [Broker.modifyChannel])

/-- Taking consumers off takes nothing else off than the queue that goes with them. -/
theorem removeConsumer (b : Broker) (r : Registered) : b.Sheds (b.removeConsumer r) := by
  have hready : ∀ q' ∈ (b.removeConsumer r).queues,
      ∃ q ∈ b.queues, q.id = q'.id ∧ q'.messages = q.messages := by
    simp only [Broker.removeConsumer]
    intro q' hq'
    split at hq'
    · exact ⟨q', hq', rfl, rfl⟩
    · split at hq'
      · exact ⟨q', (mem_removeQueue.mp hq').1, rfl, rfl⟩
      · obtain ⟨q₀, hq₀, ⟨_, rfl⟩ | ⟨_, rfl⟩⟩ := mem_modifyQueue hq' <;> exact ⟨_, hq₀, rfl, rfl⟩
  have hscheduled : (b.removeConsumer r).scheduled = b.scheduled := by
    simp only [Broker.removeConsumer]
    split
    · rfl
    · split <;> rfl
  exact ⟨hready, (thinner_removeConsumer b r).consumers, hscheduled,
    Nat.le_of_eq (congrArg List.length (channels_removeConsumer b r)).symm⟩

theorem removeConsumers (b : Broker) (rs : List Registered) :
    b.Sheds (rs.foldl Broker.removeConsumer b) := by
  induction rs generalizing b with
  | nil => exact refl b
  | cons r rs ih => exact (removeConsumer b r).trans (ih _)

theorem forgets (b : Broker) (ss : List Consumer) : b.Sheds (ss.foldl forget b) := by
  induction ss generalizing b with
  | nil => exact refl b
  | cons s ss ih => exact (modifyChannel b s.channel _).trans (ih _)

/-- A queue that may have lost something has the same copies ready, or it is gone. -/
theorem readyOn (h : b.Sheds b') (hnamed : b.Named) (id : Nat) :
    b'.readyOn id = b.readyOn id ∨ b'.queueById? id = none := by
  cases hq' : b'.queueById? id with
  | none => exact .inr rfl
  | some q' =>
    obtain ⟨q, hq, hid, hmessages⟩ := h.ready q' (mem_of_queueById? hq')
    obtain rfl : q'.id = id := by simpa using List.find?_some hq'
    refine .inl ?_
    rw [Broker.readyOn, hq', Option.map_some, Option.getD_some, hmessages, ← hid,
      hnamed.readyOn_eq hq]

/-- Cancelling a consumer takes it off its queue. -/
theorem cancel (b : Broker) (ch : Nat) (c : Channel) (tag : Value) :
    b.Sheds (b.cancel ch c tag) := by
  simp only [Broker.cancel]
  split
  · exact (modifyChannel b ch _).trans (removeConsumer _ _)
  · exact refl b

/-- Deleting a queue leaves the others alone. -/
theorem deleteQueue (b : Broker) (name : Value) : b.Sheds (b.deleteQueue name).broker := by
  simp only [Broker.deleteQueue]
  split
  · exact refl b
  · rename_i q _
    have hremoved : b.Sheds (b.removeQueue q.id) :=
      ⟨fun q' hq' => ⟨q', (mem_removeQueue.mp hq').1, rfl, rfl⟩, Thinner.removeQueue.consumers, rfl,
        Nat.le_refl _⟩
    exact hremoved.trans (forgets _ _)

/-- An operation that only sheds something, or is refused. -/
theorem attempt {r : Except Fault (Broker × Value)} (h : ∀ b' v, r = .ok (b', v) → b.Sheds b') :
    b.Sheds (b.attempt r).broker := by
  cases r with
  | error f => exact refl b
  | ok p => exact h p.1 p.2 rfl

end Sheds

/-! ## Copies that are put back -/

/-- Copies are put back one after the other, while queues may shed something in between. -/
inductive Returns : Broker → List Unacked → Broker → Prop where
  | nil {b b' : Broker} (h : b.Sheds b') : Returns b [] b'
  | cons {b b₁ b' : Broker} {u : Unacked} {us : List Unacked} (h : b.Sheds b₁)
      (hrest : Returns (b₁.giveBack u) us b') : Returns b (u :: us) b'

theorem Returns.of_sheds (h : b.Sheds b₁) (h' : b₁.Returns us b') : b.Returns us b' := by
  cases h' with
  | nil hlast => exact .nil (h.trans hlast)
  | cons hfirst hrest => exact .cons (h.trans hfirst) hrest

theorem Returns.trans (h : b.Returns us b₁) (h' : b₁.Returns vs b') :
    b.Returns (us ++ vs) b' := by
  induction h with
  | nil hlast => exact h'.of_sheds hlast
  | cons hfirst _ ih => exact .cons hfirst (ih h')

theorem returns_requeue (b : Broker) (us : List Unacked) : b.Returns us (b.requeue us) := by
  induction us generalizing b with
  | nil => exact .nil (.refl b)
  | cons u us ih => exact .cons (.refl b) (ih _)

/-- The copies that wait on an open channel. -/
def held (b : Broker) (ch : Nat) : List Unacked :=
  match b.openChannel ch with
  | .ok c => c.unacked.map (·.2)
  | .error _ => []

/-- The copies that an event takes off channels in order to put them back. -/
def Event.returned (b : Broker) : Event → List Unacked
  | .request ch _ (.close params) => if (callText "close" params).isOk then b.held ch else []
  | .request ch _ (.abort params) => if (callText "abort" params).isOk then b.held ch else []
  | .request ch _ (.basicNack tag multiple requeue) =>
    match b.settle ch tag multiple.isTruthy with
    | .ok (_, us) => if requeue.isTruthy then us else []
    | .error _ => []
  | .disconnect _ => (List.range b.channels.length).flatMap b.held
  | _ => []

/-- A channel that ends gives back what waits on it. -/
theorem returns_terminate (b : Broker) (ch : Nat) (error : Option Value) :
    b.Returns (b.held ch) (b.terminate ch error).1 := by
  simp only [held, terminate]
  cases b.openChannel ch with
  | error f => exact .nil (.refl b)
  | ok c =>
    exact (returns_requeue _ _).of_sheds
      ((Sheds.modifyChannel b ch _).trans (.removeConsumers _ _))

/-- The end of a channel does not touch the others. -/
theorem held_terminate_of_ne {ch' : Nat} (hne : ch ≠ ch') (error : Option Value) :
    (b.terminate ch error).1.held ch' = b.held ch' := by
  have hchannels : (b.terminate ch error).1.channels[ch']? = b.channels[ch']? := by
    simp only [terminate]
    cases b.openChannel ch with
    | error f => rfl
    | ok c =>
      simp [channels_requeue, channels_removeConsumers, Broker.modifyChannel, hne]
  simp only [held, openChannel, hchannels]

/-- Channels that end one after the other give back all that waits on them. -/
theorem returns_terminates (b : Broker) (error : Option Value) {chs : List Nat} (hchs : chs.Nodup) :
    b.Returns (chs.flatMap b.held) (chs.foldl (fun b ch => (b.terminate ch error).1) b) := by
  induction chs generalizing b with
  | nil => exact .nil (.refl b)
  | cons ch chs ih =>
    obtain ⟨hnew, hchs⟩ := List.nodup_cons.mp hchs
    have hheld : chs.flatMap (b.terminate ch error).1.held = chs.flatMap b.held := by
      refine List.flatMap_congr fun ch' hch' => held_terminate_of_ne ?_ error
      rintro rfl
      exact hnew hch'
    have hrest := ih (b.terminate ch error).1 hchs
    rw [hheld] at hrest
    exact (returns_terminate b ch error).trans hrest

/-- Ending a channel at its own request gives back what waits on it, if the call has a text. -/
theorem returns_endChannel (b : Broker) (ch : Nat) (verb : String) (params : Option Value) :
    b.Returns (if (callText verb params).isOk then b.held ch else [])
      (b.endChannel ch verb params).broker := by
  simp only [endChannel]
  cases callText verb params with
  | error thrown => exact .nil (.refl b)
  | ok text =>
    have hheld : (b.modifyChannel ch fun c => { c with calls := c.calls ++ [text] }).held ch =
        b.held ch := by
      rw [held, openChannel_modifyChannel (by exact fun _ => rfl), held]
      cases b.openChannel ch <;> rfl
    have hback := (returns_terminate
      (b.modifyChannel ch fun c => { c with calls := c.calls ++ [text] }) ch none).of_sheds
        (Sheds.modifyChannel b ch _)
    rw [hheld] at hback
    revert hback
    simp only [terminate]
    cases Broker.openChannel _ ch <;> exact fun h => h

/-! ## Steps -/

/-- What an event can do to queues and to the schedule. -/
inductive Stir (b : Broker) (e : Event) : Broker → Prop where
  | shed {b' : Broker} (h : b.Sheds b') : Stir b e b'
  /-- A queue is declared. -/
  | declared {b' : Broker} {name : Value} {flags : QueueFlags}
      (hqueues : b'.queues = b.queues ++ [{ id := b.declared, name, flags }])
      (hscheduled : b'.scheduled = b.scheduled) (hchannels : b'.channels = b.channels) :
      Stir b e b'
  /-- A queue gets a consumer, and is scheduled. -/
  | joined {b' : Broker} {q : Queue} {s : Consumer} (hq : q ∈ b.queues)
      (hs : s.channel < b.channels.length)
      (hqueues : b'.queues = (b.modifyQueue q.id fun q =>
        { q with consumers := q.consumers ++ [s] }).queues)
      (hscheduled : b'.scheduled = b.scheduled ++ [q.id])
      (hchannels : b'.channels.length = b.channels.length) : Stir b e b'
  | purged {ch number : Nat} {name : Value} {q : Queue}
      (he : e = .request ch number (.queuePurge name)) (hopen : b.IsOpen ch)
      (hq : b.queue? name = some q) :
      Stir b e (b.modifyQueue q.id fun q => { q with messages := [] })
  | published {ch number : Nat} {exchangeName key properties body : Value}
      (he : e = .request ch number (.basicPublish exchangeName key properties body))
      (hopen : b.IsOpen ch) : Stir b e (b.publish exchangeName key properties body).broker
  | returned {b' : Broker} (h : b.Returns (e.returned b) b') : Stir b e b'
  | served (he : e = .serve) : Stir b e b.serve.1

theorem stir_declareQueueSpec (b : Broker) (e : Event) (spec : Option Value) :
    Stir b e (b.declareQueueSpec spec).broker := by
  simp only [declareQueueSpec]
  generalize (spec.map QueueFlags.ofSpec).getD .unspecified = flags
  split
  · rcases declareQueue_cases b ((spec.getD .undefined).field "name") flags with
      ⟨_, hsame⟩ | ⟨_, hadded⟩
    · rw [hsame]
      exact .shed (.refl b)
    · rw [hadded]
      exact .declared rfl rfl rfl
  · rcases declareQueue_cases b.issue (.text ("amq.gen-" ++ b.nextIdentity)) flags with
      ⟨_, hsame⟩ | ⟨_, hadded⟩
    · rw [hsame]
      exact .shed (.of_queues rfl rfl (Nat.le_refl _))
    · rw [hadded]
      exact .declared rfl rfl rfl

theorem sheds_declareExchange {spec reply : Value}
    (h : b.declareExchange spec = .ok (b', reply)) : b.Sheds b' := by
  simp only [declareExchange, Bind.bind, Except.bind] at h
  split at h
  · cases h
  · split at h
    · cases h
    · split at h
      · split at h
        · cases h
          exact .refl b
        · cases h
      · cases h
        exact .of_queues rfl rfl (Nat.le_refl _)

theorem sheds_bind {queueName exchangeName key reply : Value}
    (h : b.bind queueName exchangeName key = .ok (b', reply)) : b.Sheds b' := by
  simp only [Broker.bind, Bind.bind, Except.bind] at h
  split at h
  · cases h
  · split at h
    · cases h
    · cases h
      exact .of_queues rfl rfl (Nat.le_refl _)

theorem sheds_deleteExchange {name reply : Value}
    (h : b.deleteExchange name = .ok (b', reply)) : b.Sheds b' := by
  simp only [deleteExchange, Bind.bind, Except.bind] at h
  split at h
  · cases h
  · cases h
    exact .of_queues rfl rfl (Nat.le_refl _)

/-- A consumer that is started joins its queue. -/
theorem stir_consume (hopen : b.IsOpen ch) (e : Event) (number : Nat) (name options : Value) :
    Stir b e (b.attempt (b.consume ch number name options)).broker := by
  obtain ⟨c, hopen⟩ := hopen
  have hlt : ch < b.channels.length :=
    (List.getElem?_eq_some_iff.mp (openChannel_eq_ok.mp hopen).1).1
  simp only [consume, Bind.bind, Except.bind, queue]
  cases hq : b.queue? name with
  | none => exact .shed (.refl b)
  | some q =>
    simp only []
    have hq := mem_of_queue? hq
    split <;> exact .joined hq (by exact hlt) rfl rfl (by simp [attempt, modifyChannel, schedule,
      issue, modifyQueue])

/-- What an open channel is asked for stirs what it may. -/
theorem stir_perform (hopen : b.openChannel ch = .ok c) (number : Nat)
    (p : Amqp.Channel.Primitive) :
    Stir b (.request ch number p) (b.perform ch number c p).broker := by
  cases p with
  | close params => exact .returned (returns_endChannel ..)
  | abort params => exact .returned (returns_endChannel ..)
  | queueDeclare spec => exact stir_declareQueueSpec ..
  | exchangeDeclare spec => exact .shed (.attempt fun _ _ => sheds_declareExchange)
  | queueBind queueName exchangeName key => exact .shed (.attempt fun _ _ => sheds_bind)
  | basicPublish exchangeName key properties body => exact .published rfl ⟨c, hopen⟩
  | queueDelete name => exact .shed (.deleteQueue b name)
  | exchangeDelete name => exact .shed (.attempt fun _ _ => sheds_deleteExchange)
  | queuePurge name =>
    simp only [perform, purge, Bind.bind, Except.bind, queue]
    cases hq : b.queue? name with
    | none => exact .shed (.refl b)
    | some q => exact .purged rfl ⟨c, hopen⟩ hq
  | basicConsume name options => exact stir_consume ⟨c, hopen⟩ ..
  | basicCancel tag => exact .shed (.cancel b ch c tag)
  | basicQos count global => exact .shed (.modifyChannel b ch _)
  | basicAck tag multiple =>
    simp only [perform]
    cases h : b.settle ch tag multiple.isTruthy with
    | error f => exact .shed (.refl b)
    | ok p =>
      obtain ⟨_, _, _, _, hbroker, _⟩ := settle_eq_ok h
      have hsettled : b.Sheds p.1 := hbroker ▸ .modifyChannel b ch _
      exact .shed hsettled
  | basicNack tag multiple requeue =>
    simp only [perform]
    cases h : b.settle ch tag multiple.isTruthy with
    | error f => exact .shed (.refl b)
    | ok p =>
      obtain ⟨_, _, _, _, hbroker, _⟩ := settle_eq_ok h
      have hsettled : b.Sheds p.1 := hbroker ▸ .modifyChannel b ch _
      have hreturned : (Event.request ch number (.basicNack tag multiple requeue)).returned b =
          if requeue.isTruthy then p.2 else [] := by
        simp only [Event.returned, h]
      refine .returned ?_
      rw [hreturned]
      cases requeue.isTruthy with
      | true => exact (returns_requeue _ _).of_sheds hsettled
      | false => exact .nil hsettled

/-- The list of what an event can do is complete. -/
theorem stir_step (b : Broker) (e : Event) : Stir b e (b.step e).broker := by
  cases e with
  | openChannel =>
    simp only [step, openNext]
    split
    · exact .shed (.of_queues rfl rfl (Nat.le_refl _))
    · exact .shed (.of_queues rfl rfl (by simp))
  | request ch number p =>
    cases hopen : b.openChannel ch with
    | ok c =>
      simp only [step, request, hopen]
      exact stir_perform hopen number p
    | error f =>
      simp only [step, request, hopen]
      cases p with
      | close params => exact .returned (returns_endChannel ..)
      | abort params => exact .returned (returns_endChannel ..)
      | _ => exact .shed (.refl b)
  | serve => exact .served rfl
  | disconnect error =>
    have hback := returns_terminates b (some error) (List.nodup_range (n := b.channels.length))
    rw [← fst_disconnect] at hback
    exact .returned hback
  | refuseNext error => exact .shed (.of_queues rfl rfl (Nat.le_refl _))

end Amqp.Broker
