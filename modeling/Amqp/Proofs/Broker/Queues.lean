import Amqp.Proofs.Broker.Steps
import Mathlib.Data.List.Nodup

/-!
# Queues and the consumers that are taken off them

Most operations of a broker move copies: the queues are the same otherwise, and so are the
registries of the channels. Taking the consumers of registered ones off their queues leaves some of
them with fewer consumers, and some may go. Queues have names of their own, in every run.
-/

namespace Amqp.Broker

variable {b b' b'' : Broker} {ch id : Nat} {q q' : Queue} {name : Value}

/-! ## What is left alone -/

/-- A queue without its messages. -/
def Queue.shell (q : Queue) : Queue := { q with messages := [] }

/-- The queues without their messages. -/
def shells (b : Broker) : List Queue := b.queues.map Queue.shell

/-- The channel is open. -/
def IsOpen (b : Broker) (ch : Nat) : Prop := ∃ c, b.openChannel ch = .ok c

/-- The consumers that a channel has registered, if it is open. -/
def registry (b : Broker) (ch : Nat) : List Registered :=
  match b.openChannel ch with
  | .ok c => c.consumers
  | .error _ => []

@[simp] theorem Queue.shell_id (q : Queue) : q.shell.id = q.id := rfl

@[simp] theorem Queue.shell_name (q : Queue) : q.shell.name = q.name := rfl

@[simp] theorem Queue.shell_flags (q : Queue) : q.shell.flags = q.flags := rfl

@[simp] theorem Queue.shell_consumers (q : Queue) : q.shell.consumers = q.consumers := rfl

/-- The brokers have the same queues, messages apart, and the same registries. -/
structure Alike (b b' : Broker) : Prop where
  shells : b'.shells = b.shells
  declared : b'.declared = b.declared
  exchanges : b'.exchanges = b.exchanges
  registry : ∀ ch, b'.registry ch = b.registry ch

theorem Alike.refl (b : Broker) : b.Alike b := ⟨rfl, rfl, rfl, fun _ => rfl⟩

theorem Alike.trans (h : b.Alike b') (h' : b'.Alike b'') : b.Alike b'' where
  shells := h'.shells.trans h.shells
  declared := h'.declared.trans h.declared
  exchanges := h'.exchanges.trans h.exchanges
  registry ch := (h'.registry ch).trans (h.registry ch)

theorem registry_of_openChannel {c : Channel} (h : b.openChannel ch = .ok c) :
    b.registry ch = c.consumers := by
  rw [registry, h]

/-- Registries are those of before where the channels are. -/
theorem registry_of_channels (h : b'.channels = b.channels) (ch : Nat) :
    b'.registry ch = b.registry ch := by
  rw [registry, registry, openChannel, openChannel, h]

/-- Another channel's registry is not changed with a channel. -/
theorem registry_modifyChannel_of_ne {ch' : Nat} {f : Channel → Channel} (hne : ch ≠ ch') :
    (b.modifyChannel ch f).registry ch' = b.registry ch' := by
  rw [registry, registry, openChannel, openChannel, modifyChannel, List.getElem?_modify]
  cases b.channels[ch']? with
  | none => rfl
  | some c => simp only [if_neg hne, Option.map_eq_map, Option.map_some]

/-- A channel that changes and stays open changes its registry. -/
theorem registry_modifyChannel_self {f : Channel → Channel} (hf : ∀ c, (f c).closed = c.closed)
    {g : List Registered → List Registered} (hg : ∀ c, (f c).consumers = g c.consumers)
    (hnil : b.registry ch = [] → g [] = []) :
    (b.modifyChannel ch f).registry ch = g (b.registry ch) := by
  have hopen : (b.modifyChannel ch f).openChannel ch = (b.openChannel ch).map f :=
    openChannel_modifyChannel hf
  rw [registry, hopen]
  cases h : b.openChannel ch with
  | ok c => simp only [registry, h, Except.map, hg]
  | error fault =>
    have hempty : b.registry ch = [] := by rw [registry, h]
    simp only [Except.map, hempty, hnil hempty]

/-- A channel that only notes something keeps its registry. -/
theorem alike_modifyChannel {f : Channel → Channel}
    (hf : ∀ c, (f c).closed = c.closed ∧ (f c).consumers = c.consumers) :
    b.Alike (b.modifyChannel ch f) := by
  refine ⟨rfl, rfl, rfl, fun ch' => ?_⟩
  by_cases hch : ch = ch'
  · subst hch
    exact registry_modifyChannel_self (fun c => (hf c).1) (g := fun rs => rs)
      (fun c => (hf c).2) fun _ => rfl
  · exact registry_modifyChannel_of_ne hch

/-- Changing the messages of a queue changes nothing else. -/
theorem shells_modifyQueue {f : Queue → Queue} (hf : ∀ q, (f q).shell = q.shell) :
    (b.modifyQueue id f).shells = b.shells := by
  rw [shells, modifyQueue, List.map_map, shells]
  refine List.map_congr_left fun q _ => ?_
  by_cases hid : q.id = id
  · simp only [Function.comp_apply, if_pos hid, hf]
  · simp only [Function.comp_apply, if_neg hid]

theorem alike_modifyMessages (b : Broker) (id : Nat) (f : List Copy → List Copy) :
    b.Alike (b.modifyQueue id fun q => { q with messages := f q.messages }) :=
  ⟨shells_modifyQueue fun _ => rfl, rfl, rfl, fun _ => rfl⟩

theorem alike_append (b : Broker) (q : Queue) (c : Copy) : b.Alike (b.append q c) :=
  ⟨shells_modifyQueue fun _ => rfl, rfl, rfl, fun _ => rfl⟩

theorem alike_copyTo (b : Broker) (c : Copy) (names : List Value) :
    b.Alike (b.copyTo c names).1 := by
  induction names generalizing b with
  | nil => exact Alike.refl b
  | cons name names ih =>
    rw [copyTo]
    cases b.queue name with
    | ok q => exact (alike_append b q c).trans (ih _)
    | error f => exact Alike.refl b

theorem alike_giveBack (b : Broker) (u : Unacked) : b.Alike (b.giveBack u) := by
  rcases giveBack_cases b u with ⟨hsame, _⟩ | ⟨q, _, _, hback⟩
  · rw [hsame]
    exact Alike.refl b
  · rw [hback]
    exact ⟨shells_modifyQueue fun _ => rfl, rfl, rfl, fun _ => rfl⟩

theorem alike_requeue (b : Broker) (us : List Unacked) : b.Alike (b.requeue us) := by
  induction us generalizing b with
  | nil => exact Alike.refl b
  | cons u us ih => exact (alike_giveBack b u).trans (ih _)

theorem alike_handedTo (b : Broker) (q : Queue) (h : Handover) : b.Alike (b.handedTo q h) := by
  have hturned : b.Alike { b with turns := b.turns + 1 } := ⟨rfl, rfl, rfl, fun _ => rfl⟩
  have htaken := hturned.trans (alike_modifyMessages _ q.id (·.tail))
  exact htaken.trans (alike_modifyChannel fun _ => ⟨rfl, rfl⟩)

theorem alike_handOut (b : Broker) (id bound : Nat) : b.Alike (b.handOut id bound).1 := by
  induction bound generalizing b with
  | zero => exact Alike.refl b
  | succ bound ih =>
    rw [handOut]
    cases h : b.handOut? id with
    | none => exact Alike.refl b
    | some next =>
      obtain ⟨b', e⟩ := next
      obtain ⟨q, copy, rest, s, c, _, _, _, _, _, _, rfl⟩ := handOut?_eq_some h
      exact (alike_handedTo b q _).trans (ih _)

theorem alike_serve (b : Broker) : b.Alike b.serve.1 := by
  rw [serve]
  cases b.scheduled with
  | nil => exact Alike.refl b
  | cons id rest =>
    have hscheduled : b.Alike { b with scheduled := rest } := ⟨rfl, rfl, rfl, fun _ => rfl⟩
    simp only []
    split
    · exact hscheduled
    · exact hscheduled.trans (alike_handOut ..)

/-! ## Names -/

/-- Queues have numbers and names of their own, and the numbers have been given out. -/
structure Named (b : Broker) : Prop where
  distinct : (b.queues.map (·.id)).Nodup
  declared : ∀ id ∈ b.queues.map (·.id), id < b.declared
  apart : (b.queues.map (·.name)).Pairwise fun v w => v.sameKey w = false

theorem ids_shells (b : Broker) : b.shells.map (·.id) = b.queues.map (·.id) := by
  simp only [shells, List.map_map, Function.comp_def, Queue.shell_id]

theorem names_shells (b : Broker) : b.shells.map (·.name) = b.queues.map (·.name) := by
  simp only [shells, List.map_map, Function.comp_def, Queue.shell_name]

namespace Named

/-- Only one queue has a name. -/
theorem eq_of_sameKey (h : b.Named) (hq : q ∈ b.queues) (hq' : q' ∈ b.queues)
    (hname : q.name.sameKey name = true) (hname' : q'.name.sameKey name = true) : q = q' := by
  have hsame : q.name.sameKey q'.name = true := by
    rw [Value.sameKey_congr hname, Value.sameKey_comm, hname']
  have hapart := List.pairwise_map.mp h.apart
  by_contra hne
  have hsymm : Std.Symm fun q q' : Queue => q.name.sameKey q'.name = false :=
    ⟨fun q q' hfalse => (Value.sameKey_comm _ _).trans hfalse⟩
  have hfalse : q.name.sameKey q'.name = false := hapart.forall hq hq' hne
  exact Bool.false_ne_true (hfalse.symm.trans hsame)

theorem queue?_eq_some_iff (h : b.Named) :
    b.queue? name = some q ↔ q ∈ b.queues ∧ q.name.sameKey name = true := by
  constructor
  · exact fun hq => ⟨mem_of_queue? hq, by simpa using List.find?_some hq⟩
  · rintro ⟨hq, hname⟩
    obtain ⟨q', hq'⟩ : ∃ q', b.queue? name = some q' :=
      Option.isSome_iff_exists.mp (List.find?_isSome.mpr ⟨q, hq, hname⟩)
    have hname' : q'.name.sameKey name = true := by simpa using List.find?_some hq'
    rw [hq', h.eq_of_sameKey (mem_of_queue? hq') hq hname' hname]

theorem eq_of_id (h : b.Named) (hq : q ∈ b.queues) (hq' : q' ∈ b.queues) (hid : q.id = q'.id) :
    q = q' := List.inj_on_of_nodup_map h.distinct hq hq' hid

theorem of_sublist (h : b.Named) (hids : (b'.queues.map (·.id)).Sublist (b.queues.map (·.id)))
    (hnames : (b'.queues.map (·.name)).Sublist (b.queues.map (·.name)))
    (hdeclared : b'.declared = b.declared) : b'.Named :=
  ⟨h.distinct.sublist hids, fun id hid => hdeclared ▸ h.declared id (hids.subset hid),
    h.apart.sublist hnames⟩

end Named

/-! ## Consumers that are taken off -/

/-- A consumer goes with a registered one whose tag or whose number it has. -/
def Registered.takes (r : Registered) (s : Consumer) : Bool :=
  s.tag.isEqual r.tag || s.number == r.number

/-- A queue after the consumers of some of its registered ones are taken off it. It may go with its
last consumer. -/
def Queue.deprived? (q : Queue) (rs : List Registered) : Option Queue :=
  let rest := q.consumers.filter fun s => !rs.any (·.takes s)
  if q.flags.autoDelete.isTruthy && !rs.isEmpty && rest.isEmpty then none
  else some { q with consumers := rest }

/-- A queue after the consumers of registered ones of any queues are taken off theirs. -/
def Queue.without? (q : Queue) (rs : List Registered) : Option Queue :=
  q.deprived? (rs.filter fun r => q.name.sameKey r.queue)

theorem Queue.deprived?_nil (q : Queue) : q.deprived? [] = some q := by
  simp only [deprived?, List.isEmpty_nil, Bool.not_true, Bool.and_false, Bool.false_and,
    List.any_nil, Bool.not_false, List.filter_true, Bool.false_eq_true, if_false]

theorem Queue.deprived?_append (q : Queue) (rs rs' : List Registered) :
    q.deprived? (rs ++ rs') = (q.deprived? rs).bind (·.deprived? rs') := by
  have hrest : (q.consumers.filter fun s => !(rs ++ rs').any (·.takes s)) =
      (q.consumers.filter fun s => !rs.any (·.takes s)).filter fun s => !rs'.any (·.takes s) := by
    simp only [List.filter_filter, List.any_append, Bool.not_or, Bool.and_comm]
  simp only [deprived?, hrest]
  generalize q.consumers.filter (fun s => !rs.any (·.takes s)) = rest
  cases hauto : q.flags.autoDelete.isTruthy with
  | false => simp only [Bool.false_and, Bool.false_eq_true, if_false, Option.bind_some, hauto]
  | true =>
    -- either part may be empty, and the first one may leave no consumer
    cases rs <;> cases rs' <;> cases rest <;> simp [hauto]

theorem Queue.deprived?_eq_none_iff {rs : List Registered} :
    q.deprived? rs = none ↔ q.flags.autoDelete.isTruthy = true ∧ rs ≠ [] ∧
      ∀ s ∈ q.consumers, ∃ r ∈ rs, r.takes s = true := by
  simp [deprived?, and_assoc]

@[simp] theorem Queue.without?_nil (q : Queue) : q.without? [] = some q := q.deprived?_nil

/-- What is left has the number, the name and the flags of the queue. -/
theorem Queue.of_without? {rs : List Registered} (h : q.without? rs = some q') :
    q' = { q with consumers := q.consumers.filter fun s =>
      !(rs.filter fun r => q.name.sameKey r.queue).any (·.takes s) } := by
  rw [without?, deprived?] at h
  split at h
  · cases h
  · exact (Option.some.inj h).symm

/-- The consumers that are left are those that no registered one of the queue takes. -/
theorem Queue.mem_consumers_of_without? {rs : List Registered} (h : q.without? rs = some q')
    {s : Consumer} : s ∈ q'.consumers ↔ s ∈ q.consumers ∧
      ¬∃ r ∈ rs, q.name.sameKey r.queue = true ∧ r.takes s = true := by
  rw [of_without? h]
  simp only [List.mem_filter, Bool.not_eq_true', List.any_eq_false, and_imp, not_exists, not_and]

/-- Consumers that are taken off together are taken off one part after the other. -/
theorem Queue.without?_append (q : Queue) (rs rs' : List Registered) :
    q.without? (rs ++ rs') = (q.without? rs).bind (·.without? rs') := by
  rw [without?, List.filter_append, deprived?_append]
  refine Option.bind_congr fun q' hq' => ?_
  rw [of_without? hq', without?]

/-- A queue goes when it is one to be deleted with its last consumer, and the registered ones of it
take all its consumers. -/
theorem Queue.without?_eq_none_iff {rs : List Registered} :
    q.without? rs = none ↔ q.flags.autoDelete.isTruthy = true ∧
      (∃ r ∈ rs, q.name.sameKey r.queue = true) ∧
      ∀ s ∈ q.consumers, ∃ r ∈ rs, q.name.sameKey r.queue = true ∧ r.takes s = true := by
  have hsome : rs.filter (fun r => q.name.sameKey r.queue) ≠ [] ↔
      ∃ r ∈ rs, q.name.sameKey r.queue = true := by
    simp [List.filter_eq_nil_iff]
  rw [without?, deprived?_eq_none_iff, hsome]
  simp only [List.mem_filter, and_assoc]

theorem Queue.shell_without? (q : Queue) (rs : List Registered) :
    (q.without? rs).map shell = q.shell.without? rs := by
  rw [without?, deprived?, apply_ite (Option.map shell)]
  rfl

/-- Registered ones of other queues take nothing off a queue. -/
theorem Queue.without?_of_ne {r : Registered} (h : q.name.sameKey r.queue = false) :
    q.without? [r] = some q := by
  rw [without?, List.filter_cons_of_neg (by simp [h]), List.filter_nil, deprived?_nil]

theorem Queue.without?_of_eq {r : Registered} (h : q.name.sameKey r.queue = true) :
    q.without? [r] =
      if q.flags.autoDelete.isTruthy && (q.consumers.filter fun s => !r.takes s).isEmpty then none
      else some { q with consumers := q.consumers.filter fun s => !r.takes s } := by
  rw [without?, List.filter_cons_of_pos (by exact h), List.filter_nil, deprived?]
  simp only [List.any_cons, List.any_nil, Bool.or_false, List.isEmpty_cons, Bool.not_false,
    Bool.and_true]

/-- Taking consumers off a queue leaves the other queues alone. -/
theorem queues_removeConsumer (h : b.Named) (r : Registered) :
    (b.removeConsumer r).queues = b.queues.filterMap (·.without? [r]) := by
  cases hq : b.queue? r.queue with
  | none =>
    have hother (q : Queue) (hmem : q ∈ b.queues) : q.without? [r] = some q :=
      Queue.without?_of_ne (Bool.eq_false_iff.mpr (List.find?_eq_none.mp hq q hmem))
    rw [List.filterMap_congr hother, List.filterMap_some]
    simp only [removeConsumer, hq]
  | some q =>
    obtain ⟨hmem, hname⟩ := h.queue?_eq_some_iff.mp hq
    have hother (q' : Queue) (hmem' : q' ∈ b.queues) (hid : q'.id ≠ q.id) :
        q'.without? [r] = some q' := by
      refine Queue.without?_of_ne (Bool.eq_false_iff.mpr fun hname' => hid ?_)
      rw [h.eq_of_sameKey hmem' hmem hname' hname]
    simp only [removeConsumer, hq]
    by_cases hgone : (q.flags.autoDelete.isTruthy &&
        (q.consumers.filter fun s => !r.takes s).isEmpty) = true
    · have hguard (q' : Queue) (hmem' : q' ∈ b.queues) :
          q'.without? [r] = Option.guard (·.id != q.id) q' := by
        by_cases hid : q'.id = q.id
        · rw [h.eq_of_id hmem' hmem hid, Queue.without?_of_eq hname, if_pos hgone]
          simp [Option.guard]
        · rw [hother q' hmem' hid]
          simp [Option.guard, hid]
      rw [List.filterMap_congr hguard, List.filterMap_eq_filter]
      exact congrArg Broker.queues (if_pos hgone)
    · have hmap (q' : Queue) (hmem' : q' ∈ b.queues) : q'.without? [r] =
          some (if q'.id = q.id then
            { q' with consumers := q.consumers.filter fun s => !r.takes s } else q') := by
        by_cases hid : q'.id = q.id
        · rw [h.eq_of_id hmem' hmem hid, Queue.without?_of_eq hname, if_neg hgone, if_pos rfl]
        · rw [hother q' hmem' hid, if_neg hid]
      rw [List.filterMap_congr hmap, List.filterMap_eq_map']
      exact congrArg Broker.queues (if_neg hgone)

/-- What is left of a list, image by image, where each element keeps its image. -/
theorem sublist_map_filterMap {α β : Type} {f : α → Option α} {g : α → β}
    (hf : ∀ a a', f a = some a' → g a' = g a) (l : List α) :
    ((l.filterMap f).map g).Sublist (l.map g) := by
  induction l with
  | nil => exact List.Sublist.refl _
  | cons a l ih =>
    cases hfa : f a with
    | none =>
      rw [List.filterMap_cons_none hfa, List.map_cons]
      exact ih.cons _
    | some a' =>
      rw [List.filterMap_cons_some hfa, List.map_cons, List.map_cons, hf a a' hfa]
      exact ih.cons_cons _

theorem declared_removeConsumer (b : Broker) (r : Registered) :
    (b.removeConsumer r).declared = b.declared := by
  simp only [removeConsumer]
  split
  · rfl
  · split <;> rfl

theorem exchanges_removeConsumer (b : Broker) (r : Registered) :
    (b.removeConsumer r).exchanges = b.exchanges := by
  simp only [removeConsumer]
  split
  · rfl
  · split <;> rfl

/-- A broker after it has taken off consumers: nothing else but copies and registries changes. -/
structure Relieved (rs : List Registered) (b b' : Broker) : Prop where
  shells : b'.shells = b.shells.filterMap (·.without? rs)
  declared : b'.declared = b.declared
  exchanges : b'.exchanges = b.exchanges

namespace Relieved

theorem of_alike (h : b.Alike b') : Relieved [] b b' := by
  refine ⟨?_, h.declared, h.exchanges⟩
  simp only [Queue.without?_nil, List.filterMap_some]
  exact h.shells

theorem trans {rs rs' : List Registered} (h : Relieved rs b b') (h' : Relieved rs' b' b'') :
    Relieved (rs ++ rs') b b'' := by
  refine ⟨?_, h'.declared.trans h.declared, h'.exchanges.trans h.exchanges⟩
  rw [h'.shells, h.shells, List.filterMap_filterMap]
  exact List.filterMap_congr fun q _ => (q.without?_append rs rs').symm

/-- Names are kept. -/
theorem named {rs : List Registered} (h : Relieved rs b b') (hb : b.Named) : b'.Named := by
  have hids : (b'.queues.map (·.id)).Sublist (b.queues.map (·.id)) := by
    rw [← ids_shells, ← ids_shells, h.shells]
    exact sublist_map_filterMap (fun q q' hq => by rw [Queue.of_without? hq]) b.shells
  have hnames : (b'.queues.map (·.name)).Sublist (b.queues.map (·.name)) := by
    rw [← names_shells, ← names_shells, h.shells]
    exact sublist_map_filterMap (fun q q' hq => by rw [Queue.of_without? hq]) b.shells
  exact hb.of_sublist hids hnames h.declared

end Relieved

theorem relieved_removeConsumer (h : b.Named) (r : Registered) :
    Relieved [r] b (b.removeConsumer r) := by
  refine ⟨?_, declared_removeConsumer b r, exchanges_removeConsumer b r⟩
  rw [shells, queues_removeConsumer h, List.map_filterMap, shells, List.filterMap_map]
  exact List.filterMap_congr fun q _ => q.shell_without? [r]

theorem relieved_removeConsumers (h : b.Named) (rs : List Registered) :
    Relieved rs b (rs.foldl removeConsumer b) := by
  induction rs generalizing b with
  | nil => exact Relieved.of_alike (Alike.refl b)
  | cons r rs ih =>
    have hfirst := relieved_removeConsumer h r
    exact hfirst.trans (ih (hfirst.named h))

/-! ## Channels that end -/

/-- A channel that ends takes its consumers off their queues. -/
theorem relieved_terminate (h : b.Named) (ch : Nat) (error : Option Value) :
    Relieved (b.registry ch) b (b.terminate ch error).1 := by
  cases hopen : b.openChannel ch with
  | error f =>
    simp only [terminate, registry, hopen]
    exact Relieved.of_alike (Alike.refl b)
  | ok c =>
    simp only [terminate, registry, hopen]
    rw [removeConsumers_modifyChannel]
    have htaken := relieved_removeConsumers h c.consumers
    have hgiven := alike_requeue
      ((c.consumers.foldl removeConsumer b).modifyChannel ch .ended) (c.unacked.map (·.2))
    exact ⟨hgiven.shells.trans htaken.shells, hgiven.declared.trans htaken.declared,
      hgiven.exchanges.trans htaken.exchanges⟩

/-- A channel that ends has an empty registry, and the other channels keep theirs. -/
theorem registry_terminate (b : Broker) (ch : Nat) (error : Option Value) (ch' : Nat) :
    (b.terminate ch error).1.registry ch' = if ch = ch' then [] else b.registry ch' := by
  cases hopen : b.openChannel ch with
  | error f =>
    have hempty : b.registry ch = [] := by rw [registry, hopen]
    simp only [terminate, hopen]
    by_cases hch : ch = ch'
    · rw [if_pos hch, ← hch, hempty]
    · rw [if_neg hch]
  | ok c =>
    simp only [terminate, hopen]
    rw [(alike_requeue _ _).registry,
      registry_of_channels (channels_removeConsumers _ c.consumers)]
    by_cases hch : ch = ch'
    · subst hch
      obtain ⟨hc, _⟩ := openChannel_eq_ok.mp hopen
      simp [registry, openChannel, modifyChannel, hc]
    · rw [if_neg hch, registry_modifyChannel_of_ne hch]

/-- Channels that end one after the other take all their consumers off. -/
theorem relieved_terminates (h : b.Named) (error : Option Value) {chs : List Nat}
    (hchs : chs.Nodup) :
    Relieved (chs.flatMap b.registry) b (chs.foldl (fun b ch => (b.terminate ch error).1) b) := by
  induction chs generalizing b with
  | nil => exact Relieved.of_alike (Alike.refl b)
  | cons ch chs ih =>
    obtain ⟨hnew, hchs⟩ := List.nodup_cons.mp hchs
    have hfirst := relieved_terminate h ch error
    have hrest := ih (hfirst.named h) hchs
    have hregistry : chs.flatMap (b.terminate ch error).1.registry = chs.flatMap b.registry := by
      refine List.flatMap_congr fun ch' hch' => ?_
      have hne : ch ≠ ch' := fun heq => hnew (heq ▸ hch')
      rw [registry_terminate, if_neg hne]
    rw [hregistry] at hrest
    exact hfirst.trans hrest

theorem registry_terminates (b : Broker) (error : Option Value) (chs : List Nat) (ch : Nat) :
    (chs.foldl (fun b ch => (b.terminate ch error).1) b).registry ch =
      if ch ∈ chs then [] else b.registry ch := by
  induction chs generalizing b with
  | nil => simp only [List.foldl_nil, List.not_mem_nil, if_false]
  | cons ch' chs ih =>
    rw [List.foldl_cons, ih, registry_terminate]
    by_cases hmem : ch ∈ chs
    · rw [if_pos hmem, if_pos (List.mem_cons_of_mem _ hmem)]
    · by_cases hch : ch' = ch
      · rw [if_neg hmem, if_pos hch, if_pos (List.mem_cons.mpr (.inl hch.symm))]
      · have hnew : ch ∉ ch' :: chs := fun h =>
          (List.mem_cons.mp h).elim (fun heq => hch heq.symm) hmem
        rw [if_neg hmem, if_neg hch, if_neg hnew]

end Amqp.Broker
