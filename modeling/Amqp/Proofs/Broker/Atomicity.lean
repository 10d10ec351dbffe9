import Amqp.Proofs.Broker.Changes
import Amqp.Proofs.Broker.Runs

/-!
# What is refused changes nothing

A primitive that a broker refuses leaves queues, exchanges, channels and schedule as they are, with
two exceptions: a publish whose message is on a queue already when another one turns out to be
missing, and the deletion of a queue with a consumer that cannot be told.
-/

namespace Amqp.Broker

variable {b b' : Broker} {ch number : Nat}

/-- A channel apart from the calls that it has noted. -/
def Channel.unnoted (c : Channel) : Channel := { c with calls := [] }

/-- Nothing has changed but the calls that channels have noted and the identities given out. -/
structure Intact (b b' : Broker) : Prop where
  queues : b'.queues = b.queues
  exchanges : b'.exchanges = b.exchanges
  channels : b'.channels.map Channel.unnoted = b.channels.map Channel.unnoted
  scheduled : b'.scheduled = b.scheduled

theorem Intact.refl (b : Broker) : b.Intact b := ⟨rfl, rfl, rfl, rfl⟩

/-- Giving out an identity is nothing that counts. -/
theorem Intact.of_issue (h : b.issue.Intact b') : b.Intact b' :=
  ⟨h.queues, h.exchanges, h.channels, h.scheduled⟩

/-- The step is refused. -/
def Response.IsRefused (r : Response) : Prop := ∃ thrown, r.outcome = .threw thrown

/-- What is refused after it has changed something. -/
inductive BreaksOff (b : Broker) (ch : Nat) : Amqp.Channel.Primitive → Prop where
  /-- The first queue that the message goes to exists, and another one does not. -/
  | published {exchangeName key properties body name : Value} {names : List Value}
      (hopen : b.IsOpen ch)
      (htargets : b.targets exchangeName key = .ok (name :: names))
      (hfirst : (b.queue? name).isSome) (hmissing : ∃ name ∈ names, b.queue? name = none) :
      BreaksOff b ch (.basicPublish exchangeName key properties body)
  /-- The queue has a consumer that cannot be told of its end. -/
  | deleted {name : Value} {q : Queue} (hopen : b.IsOpen ch)
      (hq : b.queue? name = some q) (huntold : (told q.consumers).length < q.consumers.length) :
      BreaksOff b ch (.queueDelete name)

/-! ## Publishing -/

/-- A queue that gets a copy keeps its name. -/
theorem queue?_append_isSome (b : Broker) (q : Queue) (c : Copy) (name : Value) :
    ((b.append q c).queue? name).isSome = (b.queue? name).isSome := by
  have hholder : (b.modifyQueue q.id fun q =>
      { q with messages := q.messages ++ [{ c with serial := b.copied }] }).holder? name =
        b.holder? name := holder?_modifyQueue (by exact fun _ => ⟨rfl, rfl⟩) name
  have hsome := congrArg Option.isSome hholder
  rw [holder?, holder?, Option.isSome_map, Option.isSome_map] at hsome
  exact hsome

/-- Copying a message succeeds if all the queues exist. -/
theorem copyTo_eq_ok_iff {c : Copy} {names : List Value} :
    (b.copyTo c names).2 = .ok () ↔ ∀ name ∈ names, (b.queue? name).isSome := by
  induction names generalizing b with
  | nil => exact ⟨fun _ => List.forall_mem_nil _, fun _ => rfl⟩
  | cons name names ih =>
    rw [List.forall_mem_cons, copyTo, queue]
    cases hq : b.queue? name with
    | none => simp only [reduceCtorEq, Option.isSome_none, Bool.false_eq_true, false_and]
    | some q =>
      simp only [ih, queue?_append_isSome, Option.isSome_some, true_and]

/-- Copying a message only adds to what is to be served. -/
theorem scheduled_prefix_copyTo (b : Broker) (c : Copy) (names : List Value) :
    b.scheduled <+: (b.copyTo c names).1.scheduled := by
  induction names generalizing b with
  | nil => exact List.prefix_rfl
  | cons name names ih =>
    rw [copyTo]
    cases b.queue name with
    | error f => exact List.prefix_rfl
    | ok q =>
      have hfirst : b.scheduled <+: (b.append q c).scheduled := List.prefix_append ..
      exact hfirst.trans (ih _)

/-- A publish is refused if there are no queues to be found for it, or one of them is missing. -/
theorem isRefused_publish_iff {exchangeName key properties body : Value} :
    (b.publish exchangeName key properties body).IsRefused ↔
      (∃ f, b.targets exchangeName key = .error f) ∨
        ∃ names, b.targets exchangeName key = .ok names ∧ ∃ name ∈ names, b.queue? name = none := by
  rw [publish, route]
  cases htargets : b.targets exchangeName key with
  | error f => exact ⟨fun _ => .inl ⟨f, rfl⟩, fun _ => ⟨f.thrown, rfl⟩⟩
  | ok names =>
    have hcopied : (b.copyTo ⟨0, exchangeName, key, properties, bytesOf body, false⟩ names).2 =
        .ok () ↔ ∀ name ∈ names, (b.queue? name).isSome := copyTo_eq_ok_iff
    revert hcopied
    simp only []
    cases b.copyTo ⟨0, exchangeName, key, properties, bytesOf body, false⟩ names with
    | mk b' r =>
      cases r with
      | ok u =>
        intro hcopied
        constructor
        · rintro ⟨thrown, ⟨⟩⟩
        · rintro (⟨f, ⟨⟩⟩ | ⟨names', hnames, name, hmem, hmissing⟩)
          obtain rfl := Except.ok.inj hnames
          have hsome := hcopied.mp rfl name hmem
          rw [hmissing] at hsome
          cases hsome
      | error f =>
        intro hcopied
        refine ⟨fun _ => .inr ⟨names, rfl, ?_⟩, fun _ => ⟨f.thrown, rfl⟩⟩
        by_contra hall
        have hok : (Except.error f : Except Fault Unit) = .ok () := by
          refine hcopied.mpr fun name hmem => ?_
          rw [Option.isSome_iff_ne_none]
          exact fun hnone => hall ⟨name, hmem, hnone⟩
        cases hok

/-! ## What is refused at once -/

/-- What may be refused changes nothing then. -/
theorem intact_attempt {r : Except Fault (Broker × Value)} (h : (b.attempt r).IsRefused) :
    b.Intact (b.attempt r).broker := by
  obtain ⟨thrown, h⟩ := h
  cases r with
  | error f => exact Intact.refl b
  | ok p => cases h

/-- A channel that notes a call is the same apart from that. -/
theorem intact_noted (b : Broker) (ch : Nat) (text : String) :
    b.Intact (b.modifyChannel ch fun c => { c with calls := c.calls ++ [text] }) := by
  refine ⟨rfl, rfl, ?_, rfl⟩
  refine List.ext_getElem? fun i => ?_
  rw [modifyChannel, List.getElem?_map, List.getElem?_modify, List.getElem?_map]
  cases b.channels[i]? with
  | none => rfl
  | some c =>
    by_cases hi : ch = i
    · simp only [if_pos hi, Option.map_eq_map, Option.map_some, Channel.unnoted]
    · simp only [if_neg hi, Option.map_eq_map, Option.map_some]

/-- A close or an abort that is refused has noted the call at most. -/
theorem intact_endChannel {verb : String} {params : Option Value}
    (h : (b.endChannel ch verb params).IsRefused) :
    b.Intact (b.endChannel ch verb params).broker := by
  revert h
  rw [endChannel]
  cases callText verb params with
  | error thrown => exact fun _ => Intact.refl b
  | ok text =>
    simp only []
    cases (b.modifyChannel ch fun c => { c with calls := c.calls ++ [text] }).openChannel ch with
    | error f => exact fun _ => intact_noted b ch text
    | ok c =>
      rintro ⟨thrown, ⟨⟩⟩

theorem intact_declareQueueSpec {spec : Option Value} (h : (b.declareQueueSpec spec).IsRefused) :
    b.Intact (b.declareQueueSpec spec).broker := by
  revert h
  rw [declareQueueSpec]
  split
  · exact intact_attempt
  · exact fun h => (intact_attempt h).of_issue

/-- A publish that is refused before the first copy changes nothing. -/
theorem broker_publish_of_missing {exchangeName key properties body name : Value}
    {names : List Value} (htargets : b.targets exchangeName key = .ok (name :: names))
    (hmissing : b.queue? name = none) :
    (b.publish exchangeName key properties body).broker = b := by
  simp only [publish, route, htargets, copyTo, queue, hmissing]

/-- What an open channel is refused has changed nothing, unless it broke off. -/
theorem intact_perform {c : Channel} {p : Amqp.Channel.Primitive}
    (hopen : b.openChannel ch = .ok c) (h : (b.perform ch number c p).IsRefused)
    (hwhole : ¬b.BreaksOff ch p) : b.Intact (b.perform ch number c p).broker := by
  cases p with
  | close params => exact intact_endChannel h
  | abort params => exact intact_endChannel h
  | queueDeclare spec => exact intact_declareQueueSpec h
  | basicPublish exchangeName key properties body =>
    have hsame : (b.publish exchangeName key properties body).broker = b := by
      rcases isRefused_publish_iff.mp h with ⟨f, htargets⟩ | ⟨names, htargets, missing, hmem, hnone⟩
      · simp only [publish, route, htargets]
      · cases names with
        | nil => cases hmem
        | cons first names =>
          cases hfirst : b.queue? first with
          | none => exact broker_publish_of_missing htargets hfirst
          | some q =>
            -- the first queue exists, so that a later one is missing
            refine absurd (.published ⟨c, hopen⟩ htargets (by rw [hfirst]; rfl) ?_) hwhole
            rcases List.mem_cons.mp hmem with rfl | hmem
            · cases hnone.symm.trans hfirst
            · exact ⟨missing, hmem, hnone⟩
    simp only [perform, hsame]
    exact Intact.refl b
  | queueDelete name =>
    revert h
    simp only [perform, deleteQueue, queue]
    cases hq : b.queue? name with
    | none => exact fun _ => Intact.refl b
    | some q =>
      simp only []
      split
      · rename_i huntold
        exact fun _ => absurd (.deleted ⟨c, hopen⟩ hq huntold) hwhole
      · rintro ⟨thrown, ⟨⟩⟩
  | basicCancel tag => obtain ⟨thrown, ⟨⟩⟩ := h
  | basicQos count isGlobal => obtain ⟨thrown, ⟨⟩⟩ := h
  | _ => exact intact_attempt h

/-! ## What breaks off -/

theorem step_of_openChannel {c : Channel} (hopen : b.openChannel ch = .ok c) (number : Nat)
    (p : Amqp.Channel.Primitive) :
    b.step (.request ch number p) = b.perform ch number c p := by
  simp only [step, request, hopen]

/-- A publish that breaks off has put its message on the first queue. -/
theorem scheduled_publish {exchangeName key properties body name : Value} {names : List Value}
    {q : Queue} (htargets : b.targets exchangeName key = .ok (name :: names))
    (hq : b.queue? name = some q) :
    b.scheduled ++ [q.id] <+: (b.publish exchangeName key properties body).broker.scheduled := by
  have hbroker : (b.publish exchangeName key properties body).broker =
      ((b.append q ⟨0, exchangeName, key, properties, bytesOf body, false⟩).copyTo
        ⟨0, exchangeName, key, properties, bytesOf body, false⟩ names).1 := by
    simp only [broker_publish, route, htargets, copyTo, queue, hq]
  rw [hbroker]
  exact scheduled_prefix_copyTo (b.append q _) _ names

/-- What breaks off is refused, and it has changed something. -/
theorem BreaksOff.not_intact {p : Amqp.Channel.Primitive} (number : Nat) (h : b.BreaksOff ch p) :
    (b.step (.request ch number p)).IsRefused ∧
      ¬b.Intact (b.step (.request ch number p)).broker := by
  cases h with
  | @published exchangeName key properties body name names hopen htargets hfirst hmissing =>
    obtain ⟨c, hopen⟩ := hopen
    obtain ⟨q, hq⟩ := Option.isSome_iff_exists.mp hfirst
    obtain ⟨missing, hmem, hnone⟩ := hmissing
    rw [step_of_openChannel hopen]
    constructor
    · exact isRefused_publish_iff.mpr
        (.inr ⟨name :: names, htargets, missing, List.mem_cons_of_mem _ hmem, hnone⟩)
    · intro hintact
      have hsame : (b.publish exchangeName key properties body).broker.scheduled = b.scheduled :=
        hintact.scheduled
      have hmore : b.scheduled ++ [q.id] <+:
          (b.publish exchangeName key properties body).broker.scheduled :=
        scheduled_publish htargets hq
      have hlength := hmore.length_le
      rw [hsame, List.length_append, List.length_singleton] at hlength
      omega
  | @deleted name q hopen hq huntold =>
    obtain ⟨c, hopen⟩ := hopen
    rw [step_of_openChannel hopen]
    simp only [perform, deleteQueue, queue, hq, if_pos huntold]
    refine ⟨⟨noTextFault, rfl⟩, fun hintact => ?_⟩
    obtain ⟨channels, hsame⟩ := exists_forgets_eq (b.removeQueue q.id)
      (q.consumers.take ((told q.consumers).length + 1))
    have hqueues := hintact.queues
    rw [hsame] at hqueues
    have hmem : q ∈ (b.removeQueue q.id).queues := by
      rw [show (b.removeQueue q.id).queues = b.queues from hqueues]
      exact mem_of_queue? hq
    exact (mem_removeQueue.mp hmem).2 rfl

/-- **Atomicity.** A request that is refused leaves queues, exchanges, channels and schedule as they
were, whatever it is and whatever the broker is like, exactly if it does not break off. -/
theorem refused_intact_iff (b : Broker) (ch number : Nat) (p : Amqp.Channel.Primitive) :
    ((b.step (.request ch number p)).IsRefused →
      b.Intact (b.step (.request ch number p)).broker) ↔ ¬b.BreaksOff ch p := by
  constructor
  · intro h hbreaks
    obtain ⟨hrefused, hchanged⟩ := hbreaks.not_intact number
    exact hchanged (h hrefused)
  · intro hwhole
    simp only [step, request]
    cases hopen : b.openChannel ch with
    | ok c => exact fun h => intact_perform hopen h hwhole
    | error f =>
      cases p with
      | close params => exact intact_endChannel
      | abort params => exact intact_endChannel
      | _ => exact fun _ => Intact.refl b

/-- Two queues are bound to an exchange, and the second one is deleted. -/
def secondDeleted : List Event :=
  [.openChannel,
    .request 0 1 (.queueDeclare (some (.table [("name", .text "a")]))),
    .request 0 2 (.queueDeclare (some (.table [("name", .text "b")]))),
    .request 0 3 (.exchangeDeclare (.table [("name", .text "logs"), ("type", .text "fanout")])),
    .request 0 4 (.queueBind (.text "a") (.text "logs") (.text "")),
    .request 0 5 (.queueBind (.text "b") (.text "logs") (.text "")),
    .request 0 6 (.queueDelete (.text "b"))]

/-- A publish to both queues is refused for the second one, and the first one has the message. -/
theorem exists_refused_not_intact :
    (¬∀ (events : List Event) (ch number : Nat) (p : Amqp.Channel.Primitive),
      ((reached events).step (.request ch number p)).IsRefused →
        (reached events).Intact ((reached events).step (.request ch number p)).broker) ∧
      (((reached secondDeleted).step (.request 0 7 (.basicPublish (.text "logs") (.text "")
        (.table []) (.bytes [])))).broker.queue? (.text "a")).map (·.messages.length) =
          some 1 := by
  refine ⟨fun h => ?_, rfl⟩
  have hbreaks : (reached secondDeleted).BreaksOff 0
      (.basicPublish (.text "logs") (.text "") (.table []) (.bytes [])) :=
    .published ⟨_, rfl⟩ rfl rfl ⟨.text "b", List.mem_singleton_self _, rfl⟩
  obtain ⟨hrefused, hchanged⟩ := hbreaks.not_intact 7
  exact hchanged (h secondDeleted 0 7 _ hrefused)

end Amqp.Broker
