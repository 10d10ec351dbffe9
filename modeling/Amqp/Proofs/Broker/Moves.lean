import Amqp.Proofs.Broker.Books

/-!
# What a broker does to its copies

Every operation of a broker is a chain of moves. A move changes one queue or one channel, and at
most one place of each copy. Between two moves copies can be in hand: they are off their channel and
not yet put back or given up. `Move` lists the moves with the books that each of them makes.
-/

namespace Amqp.Broker

open Books (retiring handing)

/-- The number of the queue of that name. -/
def holder? (b : Broker) (name : Value) : Option Nat := (b.queue? name).map (·.id)

/-- The consumer of a queue is the one that an entry of a registry stands for. -/
structure Registered.StandsFor (r : Registered) (b : Broker) (q : Queue) (s : Consumer) :
    Prop where
  tag : r.tag = s.tag
  number : r.number = s.number
  queue : b.holder? r.queue = some q.id

/-- No consumer of the channel has that number or that tag. -/
def Channel.IsNew (c : Channel) (number : Nat) (tag : Value) : Prop :=
  ∀ r ∈ c.consumers, r.tag.sameKey tag = false ∧ r.number ≠ number

/-- The channels differ in nothing but their calls and their prefetch count. -/
structure Channel.Alike (c c' : Channel) : Prop where
  consumers : c.consumers = c'.consumers
  closed : c.closed = c'.closed
  nextTag : c.nextTag = c'.nextTag
  unacked : c.unacked = c'.unacked

/-- One change of a broker and of the copies in hand, with the books it makes. -/
inductive Move : Broker → List Unacked → Broker → List Unacked → Books → Prop where
  /-- Neither a queue nor a channel changes. -/
  | idle {b b' : Broker} {hand : List Unacked} (hqueues : b'.queues = b.queues)
      (hchannels : b'.channels = b.channels) (hdeclared : b'.declared = b.declared)
      (hcopied : b'.copied = b.copied) : Move b hand b' hand {}
  /-- A channel notes a call or its prefetch count. -/
  | noted {b : Broker} {hand : List Unacked} {ch : Nat} {f : Channel → Channel}
      (hf : ∀ c, (f c).Alike c) : Move b hand (b.modifyChannel ch f) hand {}
  /-- A channel is opened. -/
  | opened {b : Broker} {hand : List Unacked} :
      Move b hand { b with channels := b.channels ++ [{}] } hand {}
  /-- A queue is declared. -/
  | declared {b : Broker} {hand : List Unacked} {name : Value} {flags : QueueFlags} :
      Move b hand
        { b with
          queues := b.queues ++ [{ id := b.declared, name, flags }]
          declared := b.declared + 1 }
        hand {}
  /-- A new copy is put on a queue. -/
  | put {b : Broker} {hand : List Unacked} {q : Queue} {c : Copy} (hq : q ∈ b.queues)
      (hc : c.redelivered = false) :
      Move b hand (b.append q c) hand { made := [{ c with serial := b.copied }] }
  /-- A queue is purged. -/
  | purged {b : Broker} {hand : List Unacked} {q : Queue} (hq : q ∈ b.queues) :
      Move b hand (b.modifyQueue q.id fun q => { q with messages := [] }) hand
        (retiring .purged q.messages)
  /-- A queue goes, with its copies. -/
  | removed {b : Broker} {hand : List Unacked} {q : Queue} (reason : Reason)
      (hq : q ∈ b.queues) : Move b hand (b.removeQueue q.id) hand (retiring reason q.messages)
  /-- Consumers are taken off a queue. -/
  | thinned {b : Broker} {hand : List Unacked} {q : Queue} {rest : List Consumer}
      (hq : q ∈ b.queues) (hrest : rest ⊆ q.consumers) :
      Move b hand (b.modifyQueue q.id fun q => { q with consumers := rest }) hand {}
  /-- A channel forgets consumers that no queue has. -/
  | unregistered {b : Broker} {hand : List Unacked} {ch : Nat} {keep : Registered → Bool}
      (hkeep : ∀ c, b.channels[ch]? = some c → ∀ q ∈ b.queues, ∀ s ∈ q.consumers,
        s.channel = ch → ∃ r ∈ c.consumers, r.StandsFor b q s ∧ keep r = true) :
      Move b hand
        (b.modifyChannel ch fun c => { c with consumers := c.consumers.filter keep }) hand {}
  /-- A consumer is started. -/
  | started {b : Broker} {hand : List Unacked} {ch number : Nat} {tag name : Value}
      {mode : AckMode} {q : Queue} {c : Channel} (hq : b.queue? name = some q)
      (hc : b.channels[ch]? = some c) (hopen : c.closed = false) (hnew : c.IsNew number tag) :
      Move b hand
        ((b.modifyQueue q.id fun q =>
          { q with consumers := q.consumers ++ [⟨number, tag, ch, mode⟩] }).modifyChannel ch
            fun c => { c with consumers := register ⟨tag, name, number⟩ c.consumers })
        hand {}
  /-- Copies that wait for a settlement are taken off a channel. -/
  | taken {b : Broker} {hand us : List Unacked} {ch : Nat} {c : Channel}
      {rest : List (Nat × Unacked)} (hc : b.channels[ch]? = some c)
      (hrest : rest.Sublist c.unacked)
      (hperm : (c.unacked.map (·.2)).Perm (us ++ rest.map (·.2))) :
      Move b hand (b.modifyChannel ch fun c => { c with unacked := rest }) (us ++ hand) {}
  /-- A channel ends that no queue has a consumer of. -/
  | ended {b : Broker} {hand : List Unacked} {ch : Nat} {c : Channel}
      (hc : b.channels[ch]? = some c) (hnone : ∀ q ∈ b.queues, ∀ s ∈ q.consumers, s.channel ≠ ch) :
      Move b hand (b.modifyChannel ch .ended) (c.unacked.map (·.2) ++ hand) {}
  /-- Copies in hand are given up. -/
  | retired {b : Broker} {hand us : List Unacked} (reason : Reason) :
      Move b (us ++ hand) b hand (retiring reason (us.map (·.copy.marked)))
  /-- A copy in hand is put back, if it has a queue. -/
  | returned {b : Broker} {hand : List Unacked} {u : Unacked} :
      Move b (u :: hand) (b.giveBack u) hand (retiring .orphaned (b.orphaned u))
  /-- The first copy of a queue is handed to one of its consumers. -/
  | handed {b : Broker} {hand : List Unacked} {q : Queue} {copy : Copy} {rest : List Copy}
      {s : Consumer} {c : Channel} (hq : q ∈ b.queues) (hmessages : q.messages = copy :: rest)
      (hs : s ∈ q.consumers) (hc : b.channels[s.channel]? = some c) :
      Move b hand (b.handedTo q ⟨copy, c.nextTag, s⟩) hand (handing [⟨copy, c.nextTag, s⟩])

/-- Several moves, with all their books. -/
inductive Moves (b₁ : Broker) (hand₁ : List Unacked) : Broker → List Unacked → Books → Prop where
  | refl : Moves b₁ hand₁ b₁ hand₁ {}
  | next {b₂ b₃ : Broker} {hand₂ hand₃ : List Unacked} {s t : Books}
      (h : Moves b₁ hand₁ b₂ hand₂ s) (hmove : Move b₂ hand₂ b₃ hand₃ t) :
      Moves b₁ hand₁ b₃ hand₃ (s ++ t)

variable {b b' b₁ b₂ b₃ : Broker} {hand hand₁ hand₂ hand₃ : List Unacked} {s t : Books}

/-- One move alone. -/
theorem Move.moves (h : Move b₁ hand₁ b₂ hand₂ t) : Moves b₁ hand₁ b₂ hand₂ t := Moves.refl.next h

/-- Moves after moves. -/
theorem Moves.trans (h : Moves b₁ hand₁ b₂ hand₂ s) (h' : Moves b₂ hand₂ b₃ hand₃ t) :
    Moves b₁ hand₁ b₃ hand₃ (s ++ t) := by
  induction h' with
  | refl => rwa [Books.append_nil]
  | next _ hmove ih =>
    rw [← Books.append_assoc]
    exact ih.next hmove

/-- Moves that make no books after moves. -/
theorem Moves.trans_nil (h : Moves b₁ hand₁ b₂ hand₂ s) (h' : Moves b₂ hand₂ b₃ hand₃ {}) :
    Moves b₁ hand₁ b₃ hand₃ s := Books.append_nil s ▸ h.trans h'

/-! ## Queues and channels after a change -/

theorem mem_of_queue? {name : Value} {q : Queue} (h : b.queue? name = some q) : q ∈ b.queues :=
  List.mem_of_find?_eq_some h

theorem mem_of_queueById? {id : Nat} {q : Queue} (h : b.queueById? id = some q) : q ∈ b.queues :=
  List.mem_of_find?_eq_some h

/-- A queue after a change was there before it. -/
theorem mem_modifyQueue {id : Nat} {f : Queue → Queue} {q' : Queue}
    (h : q' ∈ (b.modifyQueue id f).queues) :
    ∃ q ∈ b.queues, (q.id = id ∧ q' = f q) ∨ (q.id ≠ id ∧ q' = q) := by
  obtain ⟨q, hq, rfl⟩ := List.mem_map.mp h
  by_cases hid : q.id = id
  · exact ⟨q, hq, .inl ⟨hid, if_pos hid⟩⟩
  · exact ⟨q, hq, .inr ⟨hid, if_neg hid⟩⟩

@[simp] theorem mem_removeQueue {id : Nat} {q : Queue} :
    q ∈ (b.removeQueue id).queues ↔ q ∈ b.queues ∧ q.id ≠ id := by
  simp [removeQueue]

/-- A channel after a change was there before it. -/
theorem mem_modifyChannel {ch : Nat} {f : Channel → Channel} {c' : Channel}
    (h : c' ∈ (b.modifyChannel ch f).channels) :
    c' ∈ b.channels ∨ ∃ c, b.channels[ch]? = some c ∧ c' = f c := by
  obtain ⟨i, hi⟩ := List.mem_iff_getElem?.mp h
  rw [modifyChannel, List.getElem?_modify] at hi
  obtain ⟨c, hc, rfl⟩ := Option.map_eq_some_iff.mp hi
  by_cases hch : ch = i
  · exact .inr ⟨c, hch ▸ hc, if_pos hch⟩
  · rw [if_neg hch]
    exact .inl (List.mem_of_getElem? hc)

/-- A queue keeps its name and its number where only its contents change. -/
theorem holder?_modifyQueue {id : Nat} {f : Queue → Queue}
    (hf : ∀ q, (f q).id = q.id ∧ (f q).name = q.name) (name : Value) :
    (b.modifyQueue id f).holder? name = b.holder? name := by
  have hname (q : Queue) : (if q.id = id then f q else q).name = q.name := by
    split
    · exact (hf q).2
    · rfl
  have hid (q : Queue) : (if q.id = id then f q else q).id = q.id := by
    split
    · exact (hf q).1
    · rfl
  simp only [holder?, queue?, modifyQueue, List.find?_map, Option.map_map, Function.comp_def, hname,
    hid]

/-- A name keeps its queue when another queue goes. -/
theorem holder?_removeQueue {id id' : Nat} {name : Value} (h : b.holder? name = some id')
    (hne : id' ≠ id) : (b.removeQueue id).holder? name = some id' := by
  obtain ⟨q, hq, rfl⟩ := Option.map_eq_some_iff.mp h
  obtain ⟨hname, before, after, hqueues, hbefore⟩ := List.find?_eq_some_iff_append.mp hq
  have hq' : (b.removeQueue id).queue? name = some q := by
    refine List.find?_eq_some_iff_append.mpr
      ⟨hname, before.filter (·.id != id), after.filter (·.id != id), ?_, ?_⟩
    · simp [removeQueue, hqueues, hne]
    · exact fun q' hq' => hbefore q' (List.mem_filter.mp hq').1
  rw [holder?, hq', Option.map_some]

/-- The queue that a copy goes back to is one of the queues. -/
theorem mem_of_orElse {name : Value} {origin : Nat} {q : Queue}
    (h : ((b.queue? name).orElse fun _ => b.queueById? origin) = some q) : q ∈ b.queues := by
  cases hname : b.queue? name with
  | none =>
    rw [hname] at h
    exact mem_of_queueById? h
  | some q' =>
    rw [hname] at h
    exact mem_of_queue? (hname.trans h)

/-- A copy is put back at the head of a queue, or there is none and nothing changes. -/
theorem giveBack_cases (b : Broker) (u : Unacked) :
    (b.giveBack u = b ∧ b.orphaned u = [u.copy.marked]) ∨
      ∃ q ∈ b.queues, b.orphaned u = [] ∧
        b.giveBack u = (b.modifyQueue q.id fun q =>
          { q with messages := u.copy.marked :: q.messages }).schedule q.id := by
  simp only [giveBack, orphaned]
  cases hq : (b.queue? u.queue).orElse fun _ => b.queueById? u.origin with
  | none => exact .inl ⟨rfl, rfl⟩
  | some q => exact .inr ⟨q, mem_of_orElse hq, rfl, rfl⟩

/-- An open channel is one that is there and has not ended. -/
theorem openChannel_eq_ok {ch : Nat} {c : Channel} :
    b.openChannel ch = .ok c ↔ b.channels[ch]? = some c ∧ c.closed = false := by
  rw [openChannel]
  cases b.channels[ch]? with
  | none => simp
  | some c' =>
    simp only [Option.some.injEq]
    split
    · rename_i hclosed
      simp only [reduceCtorEq, false_iff]
      rintro ⟨rfl, hopen⟩
      exact nomatch hclosed.symm.trans hopen
    · rename_i hopen
      simp only [Except.ok.injEq, iff_self_and]
      rintro rfl
      exact Bool.eq_false_iff.mpr hopen

end Amqp.Broker
