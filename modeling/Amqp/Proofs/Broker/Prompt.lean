import Amqp.Proofs.Broker.Ready

/-!
# No message is stranded

Whatever puts a copy on a queue, and whatever gives a queue a consumer, schedules the queue, and
serving a queue goes on until it has no copies or no consumers. So a queue with both is always
scheduled, and a broker with nothing scheduled has no such queue. Serving takes a queue off the
schedule and puts none on it, so that every broker comes to that point.
-/

namespace Amqp.Broker

variable {b b' b₁ : Broker} {e : Event} {id : Nat} {q : Queue} {us : List Unacked}

/-- Something is ready on the queue with that number. -/
def HasReady (b : Broker) (id : Nat) : Prop := ∃ q ∈ b.queues, q.id = id ∧ q.messages ≠ []

/-- The queue with that number has a consumer. -/
def HasConsumer (b : Broker) (id : Nat) : Prop := ∃ q ∈ b.queues, q.id = id ∧ q.consumers ≠ []

/-- A queue with something ready and a consumer is scheduled. -/
def Prompt (b : Broker) : Prop := ∀ id, b.HasReady id → b.HasConsumer id → id ∈ b.scheduled

/-- The consumers of queues belong to channels that have been opened. -/
def Peopled (b : Broker) : Prop :=
  ∀ q ∈ b.queues, ∀ s ∈ q.consumers, s.channel < b.channels.length

/-! ## Queues that lose something, and queues that get copies -/

theorem Sheds.prompt (h : b.Sheds b') (hb : b.Prompt) : b'.Prompt := by
  rintro id ⟨q', hq', hid, hready⟩ ⟨x', hx', hid', hconsumer⟩
  obtain ⟨q, hq, hsame, hmessages⟩ := h.ready q' hq'
  obtain ⟨x, hx, hsame', hsubset⟩ := h.consumers x' hx'
  rw [h.scheduled]
  refine hb id ⟨q, hq, hsame.trans hid, hmessages ▸ hready⟩ ⟨x, hx, hsame'.trans hid', ?_⟩
  intro hnone
  rw [hnone] at hsubset
  exact hconsumer (List.subset_nil.mp hsubset)

theorem Sheds.peopled (h : b.Sheds b') (hb : b.Peopled) : b'.Peopled := by
  intro q' hq' s hs
  obtain ⟨q, hq, _, hsubset⟩ := h.consumers q' hq'
  exact Nat.lt_of_lt_of_le (hb q hq s (hsubset hs)) h.channels

theorem Alike.hasConsumer (h : b.Alike b') (hb : b'.HasConsumer id) : b.HasConsumer id := by
  obtain ⟨q', hq', hid, hsome⟩ := hb
  obtain ⟨q, hq, hid', hconsumers⟩ := h.exists_queue hq'
  exact ⟨q, hq, hid'.trans hid, hconsumers ▸ hsome⟩

theorem Alike.peopled (h : b.Alike b') (hchannels : b'.channels.length = b.channels.length)
    (hb : b.Peopled) : b'.Peopled := by
  intro q' hq' s hs
  obtain ⟨q, hq, _, hconsumers⟩ := h.exists_queue hq'
  rw [hchannels]
  exact hb q hq s (hconsumers ▸ hs)

/-- Queues get copies, and are scheduled then. -/
structure Fills (b b' : Broker) : Prop where
  alike : b.Alike b'
  ready : ∀ id, b'.HasReady id → b.HasReady id ∨ id ∈ b'.scheduled
  scheduled : b.scheduled ⊆ b'.scheduled
  channels : b'.channels = b.channels

namespace Fills

theorem refl (b : Broker) : b.Fills b :=
  ⟨Alike.refl b, fun _ h => .inl h, List.Subset.refl _, rfl⟩

theorem trans (h : b.Fills b₁) (h' : b₁.Fills b') : b.Fills b' := by
  refine ⟨h.alike.trans h'.alike, fun id hready => ?_, List.Subset.trans h.scheduled h'.scheduled,
    h'.channels.trans h.channels⟩
  rcases h'.ready id hready with hready | hscheduled
  · exact (h.ready id hready).imp_right fun hmem => h'.scheduled hmem
  · exact .inr hscheduled

theorem prompt (h : b.Fills b') (hb : b.Prompt) : b'.Prompt := by
  intro id hready hconsumer
  rcases h.ready id hready with hready | hscheduled
  · exact h.scheduled (hb id hready (h.alike.hasConsumer hconsumer))
  · exact hscheduled

theorem peopled (h : b.Fills b') (hb : b.Peopled) : b'.Peopled :=
  h.alike.peopled (congrArg List.length h.channels) hb

end Fills

/-- Where one queue changes, something new can be ready only there. -/
theorem hasReady_modifyQueue {f : Queue → Queue} (hf : ∀ q, (f q).id = q.id)
    (h : (b.modifyQueue q.id f).HasReady id) : b.HasReady id ∨ id = q.id := by
  obtain ⟨q', hq', hid, hready⟩ := h
  obtain ⟨q₀, hq₀, ⟨hsame, rfl⟩ | ⟨_, rfl⟩⟩ := mem_modifyQueue hq'
  · exact .inr (hid.symm.trans ((hf q₀).trans hsame))
  · exact .inl ⟨q', hq₀, hid, hready⟩

theorem fills_append (b : Broker) (q : Queue) (c : Copy) : b.Fills (b.append q c) where
  alike := alike_append b q c
  ready id h := by
    have hready : b.HasReady id ∨ id = q.id := hasReady_modifyQueue (by exact fun _ => rfl) h
    exact hready.imp_right fun hid => List.mem_append_right _ (List.mem_singleton.mpr hid)
  scheduled := List.subset_append_left ..
  channels := rfl

theorem fills_copyTo (b : Broker) (c : Copy) (names : List Value) :
    b.Fills (b.copyTo c names).1 := by
  induction names generalizing b with
  | nil => exact .refl b
  | cons name names ih =>
    rw [copyTo]
    cases b.queue name with
    | error f => exact .refl b
    | ok q => exact (fills_append b q c).trans (ih _)

theorem fills_publish (b : Broker) (exchangeName key properties body : Value) :
    b.Fills (b.publish exchangeName key properties body).broker := by
  simp only [broker_publish, route]
  cases b.targets exchangeName key with
  | error f => exact .refl b
  | ok names => exact fills_copyTo ..

theorem fills_giveBack (b : Broker) (u : Unacked) : b.Fills (b.giveBack u) := by
  rcases giveBack_cases b u with ⟨hsame, _⟩ | ⟨q, _, _, hback⟩
  · rw [hsame]
    exact .refl b
  · refine ⟨alike_giveBack b u, fun id h => ?_, ?_, channels_requeue b [u]⟩ <;> rw [hback] at *
    · have hready : b.HasReady id ∨ id = q.id := hasReady_modifyQueue (by exact fun _ => rfl) h
      exact hready.imp_right fun hid => List.mem_append_right _ (List.mem_singleton.mpr hid)
    · exact List.subset_append_left ..

/-- Copies that are put back strand nothing. -/
theorem Returns.prompt (h : b.Returns us b') (hb : b.Prompt) : b'.Prompt := by
  induction h with
  | nil hlast => exact hlast.prompt hb
  | cons hfirst _ ih => exact ih ((fills_giveBack _ _).prompt (hfirst.prompt hb))

theorem Returns.peopled (h : b.Returns us b') (hb : b.Peopled) : b'.Peopled := by
  induction h with
  | nil hlast => exact hlast.peopled hb
  | cons hfirst _ ih => exact ih ((fills_giveBack _ _).peopled (hfirst.peopled hb))

/-! ## Serving -/

/-- A queue with something ready and a consumer has something to hand out. -/
theorem exists_handOut? (hpeopled : b.Peopled) (hq : b.queueById? id = some q)
    (hready : q.messages ≠ []) (hconsumer : q.consumers ≠ []) :
    ∃ next, b.handOut? id = some next := by
  obtain ⟨copy, rest, hmessages⟩ := List.exists_cons_of_ne_nil hready
  have hturn : b.turns % q.consumers.length < q.consumers.length :=
    Nat.mod_lt _ (List.length_pos_of_ne_nil hconsumer)
  have hchannel : q.consumers[b.turns % q.consumers.length].channel < b.channels.length :=
    hpeopled q (mem_of_queueById? hq) _ (List.getElem_mem hturn)
  simp [handOut?, hq, hmessages, List.getElem?_eq_getElem hturn,
    List.getElem?_eq_getElem hchannel]

/-- Serving a queue that has a consumer goes on until nothing is ready. -/
theorem readyOn_handOut_eq_nil (hnamed : b.Named) (hpeopled : b.Peopled)
    (hconsumer : b.HasConsumer id) {bound : Nat} (hbound : (b.readyOn id).length ≤ bound) :
    (b.handOut id bound).1.readyOn id = [] := by
  induction bound generalizing b with
  | zero => exact List.eq_nil_of_length_eq_zero (Nat.le_zero.mp hbound)
  | succ bound ih =>
    simp only [handOut]
    cases h : b.handOut? id with
    | none =>
      obtain ⟨q, hq, rfl, hsome⟩ := hconsumer
      simp only []
      rw [hnamed.readyOn_eq hq]
      by_contra hready
      obtain ⟨next, hnext⟩ := exists_handOut? hpeopled (hnamed.queueById?_eq hq) hready hsome
      cases h.symm.trans hnext
    | some next =>
      obtain ⟨b', _⟩ := next
      obtain ⟨q, copy, rest, s, c, hq, _, hs, _, _, _, rfl⟩ := handOut?_eq_some h
      obtain rfl : q.id = id := by simpa using List.find?_some hq
      have halike := alike_handedTo b q ⟨copy, c.nextTag, s⟩
      have htaken : (b.handedTo q ⟨copy, c.nextTag, s⟩).readyOn q.id = (b.readyOn q.id).tail :=
        (readyOn_modifyMessages (mem_of_queueById? hq) List.tail q.id).trans (if_pos rfl)
      have hchannels : (b.handedTo q ⟨copy, c.nextTag, s⟩).channels.length = b.channels.length := by
        simp [handedTo, modifyChannel, modifyQueue]
      refine ih (halike.named hnamed) (halike.peopled hchannels hpeopled)
        (halike.symm.hasConsumer hconsumer) ?_
      rw [htaken, List.length_tail]
      omega

/-- Handing out copies schedules nothing and opens no channel. -/
theorem handOut_frame (b : Broker) (id bound : Nat) :
    (b.handOut id bound).1.scheduled = b.scheduled ∧
      (b.handOut id bound).1.channels.length = b.channels.length := by
  induction bound generalizing b with
  | zero => exact ⟨rfl, rfl⟩
  | succ bound ih =>
    simp only [handOut]
    cases h : b.handOut? id with
    | none => exact ⟨rfl, rfl⟩
    | some next =>
      obtain ⟨b', _⟩ := next
      obtain ⟨q, copy, rest, s, c, _, _, _, _, _, _, rfl⟩ := handOut?_eq_some h
      obtain ⟨hscheduled, hchannels⟩ := ih (b.handedTo q ⟨copy, c.nextTag, s⟩)
      refine ⟨hscheduled.trans rfl, hchannels.trans ?_⟩
      simp [handedTo, modifyChannel, modifyQueue]

/-- Serving takes the first queue off the schedule. -/
theorem serve_frame (b : Broker) :
    b.serve.1.scheduled = b.scheduled.tail ∧
      b.serve.1.channels.length = b.channels.length := by
  simp only [serve]
  cases hscheduled : b.scheduled with
  | nil => exact ⟨hscheduled, rfl⟩
  | cons first rest =>
    simp only []
    split
    · exact ⟨rfl, rfl⟩
    · exact handOut_frame { b with scheduled := rest } first _

theorem hasReady_iff (hnamed : b.Named) : b.HasReady id ↔ b.readyOn id ≠ [] := by
  constructor
  · rintro ⟨q, hq, rfl, hready⟩
    rwa [hnamed.readyOn_eq hq]
  · intro hready
    cases hq : b.queueById? id with
    | none => simp [readyOn, hq] at hready
    | some q =>
      have hid : q.id = id := by simpa using List.find?_some hq
      refine ⟨q, mem_of_queueById? hq, hid, ?_⟩
      rwa [← hnamed.readyOn_eq (mem_of_queueById? hq), hid]

/-- A queue with a consumer that is served has nothing ready any more. -/
theorem readyOn_serve_eq_nil (hnamed : b.Named) (hpeopled : b.Peopled)
    (hfirst : b.scheduled.head? = some id) (hconsumer : b.HasConsumer id) :
    b.serve.1.readyOn id = [] := by
  obtain ⟨rest, hscheduled⟩ := List.head?_eq_some_iff.mp hfirst
  obtain ⟨q, hq, rfl, hsome⟩ := hconsumer
  have hfind : ({ b with scheduled := rest } : Broker).queueById? q.id = some q :=
    hnamed.queueById?_eq hq
  have hready : ({ b with scheduled := rest } : Broker).readyOn q.id = q.messages :=
    hnamed.readyOn_eq hq
  simp only [serve, hscheduled, hfind]
  have hnamed' : Named { b with scheduled := rest } :=
    ⟨hnamed.distinct, hnamed.declared, hnamed.apart⟩
  exact readyOn_handOut_eq_nil hnamed' hpeopled ⟨q, hq, rfl, hsome⟩
    (Nat.le_of_eq (congrArg List.length hready))

/-- Serving a queue strands nothing. -/
theorem Prompt.serve (hb : b.Prompt) (hnamed : b.Named) (hpeopled : b.Peopled) :
    b.serve.1.Prompt := by
  intro id hready hconsumer
  have halike := alike_serve b
  have hconsumer := halike.hasConsumer hconsumer
  rw [hasReady_iff (halike.named hnamed)] at hready
  have hnot : b.scheduled.head? ≠ some id := fun hfirst =>
    hready (readyOn_serve_eq_nil hnamed hpeopled hfirst hconsumer)
  have hbefore : b.HasReady id := by
    rw [hasReady_iff hnamed, readyOn_serve, if_neg hnot, List.nil_append]
    exact hready
  have hmem := hb id hbefore hconsumer
  rw [(serve_frame b).1]
  cases hscheduled : b.scheduled with
  | nil =>
    rw [hscheduled] at hmem
    cases hmem
  | cons first rest =>
    rw [hscheduled] at hmem hnot
    rcases List.mem_cons.mp hmem with rfl | hmem
    · exact absurd rfl hnot
    · exact hmem

/-! ## Runs -/

/-- Every event keeps consumers with channels that have been opened. -/
theorem Stir.peopled (h : Stir b e b') (hb : b.Peopled) : b'.Peopled := by
  cases h with
  | shed h => exact h.peopled hb
  | returned h => exact h.peopled hb
  | published => exact (fills_publish ..).peopled hb
  | served => exact (alike_serve b).peopled (serve_frame b).2 hb
  | purged => exact (alike_modifyMessages b _ fun _ => []).peopled rfl hb
  | declared hqueues _ hchannels =>
    intro q hq s hs
    rw [hqueues] at hq
    rcases List.mem_append.mp hq with hq | hq
    · exact hchannels ▸ hb q hq s hs
    · rw [List.mem_singleton.mp hq] at hs
      cases hs
  | joined hq hchannel hqueues _ hchannels =>
    intro q' hq' s' hs'
    rw [hqueues] at hq'
    rw [hchannels]
    obtain ⟨q₀, hq₀, ⟨_, rfl⟩ | ⟨_, rfl⟩⟩ := mem_modifyQueue hq'
    · rcases List.mem_append.mp hs' with hs' | hs'
      · exact hb q₀ hq₀ s' hs'
      · rw [List.mem_singleton.mp hs']
        exact hchannel
    · exact hb q' hq₀ s' hs'

/-- No event strands a message. -/
theorem Stir.prompt (h : Stir b e b') (hb : b.Prompt) (hnamed : b.Named) (hpeopled : b.Peopled) :
    b'.Prompt := by
  cases h with
  | shed h => exact h.prompt hb
  | returned h => exact h.prompt hb
  | published => exact (fills_publish ..).prompt hb
  | served => exact hb.serve hnamed hpeopled
  | @purged _ _ _ q =>
    rintro id ⟨q', hq', hid, hready⟩ hconsumer
    obtain ⟨q₀, hq₀, ⟨_, rfl⟩ | ⟨_, rfl⟩⟩ := mem_modifyQueue hq'
    · exact absurd rfl hready
    · exact hb id ⟨q', hq₀, hid, hready⟩
        ((alike_modifyMessages b q.id fun _ => []).hasConsumer hconsumer)
  | declared hqueues hscheduled _ =>
    rintro id ⟨q, hq, hid, hready⟩ ⟨x, hx, hid', hconsumer⟩
    rw [hqueues] at hq hx
    rw [hscheduled]
    rcases List.mem_append.mp hq with hq | hq
    · rcases List.mem_append.mp hx with hx | hx
      · exact hb id ⟨q, hq, hid, hready⟩ ⟨x, hx, hid', hconsumer⟩
      · rw [List.mem_singleton.mp hx] at hconsumer
        exact absurd rfl hconsumer
    · rw [List.mem_singleton.mp hq] at hready
      exact absurd rfl hready
  | @joined _ q _ _ _ hqueues hscheduled _ =>
    rintro id ⟨q', hq', hid, hready⟩ ⟨x', hx', hid', hconsumer⟩
    rw [hqueues] at hq' hx'
    rw [hscheduled]
    have hbefore : b.HasReady id := by
      obtain ⟨q₀, hq₀, ⟨_, rfl⟩ | ⟨_, rfl⟩⟩ := mem_modifyQueue hq'
      · exact ⟨q₀, hq₀, hid, hready⟩
      · exact ⟨q', hq₀, hid, hready⟩
    obtain ⟨x₀, hx₀, ⟨hsame, rfl⟩ | ⟨_, rfl⟩⟩ := mem_modifyQueue hx'
    · exact List.mem_append_right _ (List.mem_singleton.mpr (hid'.symm.trans hsame))
    · exact List.mem_append_left _ (hb id hbefore ⟨x', hx₀, hid', hconsumer⟩)

/-- No run strands a message. -/
theorem prompt_reached (events : List Event) :
    (reached events).Prompt ∧ (reached events).Peopled := by
  induction events using List.reverseRecOn with
  | nil => exact ⟨fun _ ⟨_, hq, _⟩ => (List.not_mem_nil hq).elim, List.forall_mem_nil _⟩
  | append_singleton events e ih =>
    have hstir := stir_step (reached events) e
    rw [← reached_concat] at hstir
    exact ⟨hstir.prompt ih.1 (named_reached events) ih.2, hstir.peopled ih.2⟩

/-- Serving as many times as queues are scheduled leaves nothing scheduled. -/
theorem scheduled_run_serve (b : Broker) (n : Nat) :
    (b.run (List.replicate n .serve)).scheduled = b.scheduled.drop n := by
  induction n generalizing b with
  | zero => rfl
  | succ n ih =>
    refine (ih b.serve.1).trans ?_
    rw [(serve_frame b).1, List.drop_tail]

/-- In every run, whatever is asked for on whatever channels and whenever queues are served: queues
have numbers of their own, every queue with something ready and a consumer is scheduled under its
number, and so none is left when nothing is scheduled. Serving what is scheduled by then comes to
such a moment. -/
theorem no_message_stranded (events : List Event) :
    ((reached events).queues.map (·.id)).Nodup ∧
    (∀ q ∈ (reached events).queues, q.messages ≠ [] → q.consumers ≠ [] →
      q.id ∈ (reached events).scheduled) ∧
    ((reached events).scheduled = [] →
      ∀ q ∈ (reached events).queues, q.messages = [] ∨ q.consumers = []) ∧
    (reached (events ++
      List.replicate (reached events).scheduled.length .serve)).scheduled = [] := by
  have hscheduled : ∀ q ∈ (reached events).queues, q.messages ≠ [] → q.consumers ≠ [] →
      q.id ∈ (reached events).scheduled := fun q hq hready hconsumer =>
    (prompt_reached events).1 q.id ⟨q, hq, rfl, hready⟩ ⟨q, hq, rfl, hconsumer⟩
  refine ⟨(named_reached events).distinct, hscheduled, fun hnone q hq => ?_, ?_⟩
  · by_contra hbusy
    obtain ⟨hready, hconsumer⟩ := not_or.mp hbusy
    have hmem := hscheduled q hq hready hconsumer
    rw [hnone] at hmem
    cases hmem
  · have hrun : reached (events ++ List.replicate (reached events).scheduled.length .serve) =
        (reached events).run (List.replicate (reached events).scheduled.length .serve) :=
      List.foldl_append
    rw [hrun, scheduled_run_serve, List.drop_length]

end Amqp.Broker
