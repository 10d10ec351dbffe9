import Amqp.Proofs.Broker.Queues
import Amqp.Proofs.Broker.Runs
import Mathlib.Data.List.Induction

/-!
# What a step does to queues

Most steps move copies and leave everything else as it is. The others declare or delete a queue,
start a consumer, or end consumers; `Event.change` tells which, from the broker before the step.
What becomes of the queues is read off the change.
-/

namespace Amqp.Broker

variable {b b' : Broker} {ch : Nat} {q q' : Queue} {name : Value}

/-! ## Changes -/

/-- What a step does to queues and registries. -/
inductive Change where
  | declare (q : Queue)
  | delete (q : Queue)
  /-- A consumer is started on the queue of that number, which was asked for by that name. -/
  | start (queue : Nat) (s : Consumer) (name : Value)
  /-- The entries are taken out of their channels' registries, and their consumers off queues. -/
  | finish (gone : List (Nat × Registered))
  deriving Repr

/-- The entries of a channel, each with the channel. -/
def entriesOf (b : Broker) (ch : Nat) : List (Nat × Registered) := (b.registry ch).map (ch, ·)

/-- The entries of all channels. -/
def registered (b : Broker) : List (Nat × Registered) :=
  (List.range b.channels.length).flatMap b.entriesOf

/-- The name of a queue that is to be declared, asked for or not. -/
def declaredName (b : Broker) (spec : Option Value) : Value :=
  let asked := (spec.getD .undefined).field "name"
  if asked.isTruthy then asked else .text ("amq.gen-" ++ b.nextIdentity)

/-- The change that an open channel makes when it is asked for a primitive. -/
def change (b : Broker) (ch number : Nat) (c : Channel) : Amqp.Channel.Primitive → Change
  | .close params => .finish (if (callText "close" params).isOk then b.entriesOf ch else [])
  | .abort params => .finish (if (callText "abort" params).isOk then b.entriesOf ch else [])
  | .queueDeclare spec =>
    let name := b.declaredName spec
    let flags := (spec.map QueueFlags.ofSpec).getD .unspecified
    if (b.queue? name).isSome then .finish [] else .declare { id := b.declared, name, flags }
  | .queueDelete name =>
    match b.queue? name with
    | some q => .delete q
    | none => .finish []
  | .basicConsume name options =>
    let mode : AckMode := if (options.field "noAck").isTruthy then .auto else .manual
    match b.queue? name with
    | some q => .start q.id ⟨number, b.tagOf options, ch, mode⟩ name
    | none => .finish []
  | .basicCancel tag => .finish ((c.consumers.find? (·.tag.sameKey tag)).toList.map (ch, ·))
  | _ => .finish []

/-- The change that an event makes. -/
def Event.change (b : Broker) : Event → Change
  | .request ch number p =>
    match b.openChannel ch with
    | .ok c => b.change ch number c p
    | .error _ => .finish []
  | .disconnect _ => .finish b.registered
  | _ => .finish []

namespace Change

/-- What is left of a queue after a change. -/
def remains : Change → Queue → Option Queue
  | declare _, q => some q
  | delete q', q => if q.id = q'.id then none else some q
  | start id s _, q => some (if q.id = id then { q with consumers := q.consumers ++ [s] } else q)
  | finish gone, q => q.without? (gone.map (·.2))

/-- The queues that a change adds. -/
def added : Change → List Queue
  | declare q => [q]
  | _ => []

@[simp] theorem added_delete (q : Queue) : (delete q).added = [] := rfl

@[simp] theorem added_start (id : Nat) (s : Consumer) (name : Value) :
    (start id s name).added = [] := rfl

@[simp] theorem added_finish (gone : List (Nat × Registered)) : (finish gone).added = [] := rfl

/-- Queues of which everything is left. -/
theorem filterMap_remains {k : Change} {qs : List Queue}
    (h : ∀ q ∈ qs, k.remains q = some q) : qs.filterMap k.remains = qs := by
  rw [List.filterMap_congr h, List.filterMap_some]

end Change

/-- One change of a broker. Every step is one. -/
inductive Turn (b : Broker) : Change → Broker → Prop where
  /-- Only copies change, or what a channel notes. -/
  | quiet {b' : Broker} (h : b.Alike b') : Turn b (.finish []) b'
  /-- Exchanges or bindings change. A new binding is one of a queue that exists. -/
  | bound {b' : Broker} (hqueues : b'.queues = b.queues) (hchannels : b'.channels = b.channels)
      (hdeclared : b'.declared = b.declared)
      (hbindings : ∀ x' ∈ b'.exchanges, ∀ d ∈ x'.bindings,
        (∃ x ∈ b.exchanges, d ∈ x.bindings) ∨ (b.queue? d.queue).isSome) :
      Turn b (.finish []) b'
  | declared {b' : Broker} {name : Value} {flags : QueueFlags} (hname : b.queue? name = none)
      (hqueues : b'.queues = b.queues ++ [{ id := b.declared, name, flags }])
      (hchannels : b'.channels = b.channels) (hdeclared : b'.declared = b.declared + 1)
      (hexchanges : b'.exchanges = b.exchanges) :
      Turn b (.declare { id := b.declared, name, flags }) b'
  | deleted {name : Value} {q : Queue} (hq : b.queue? name = some q) :
      Turn b (.delete q)
        ((q.consumers.take ((told q.consumers).length + 1)).foldl forget (b.removeQueue q.id))
  | started {b' : Broker} {ch number : Nat} {name tag : Value} {mode : AckMode} {q : Queue}
      {c : Channel} (hopen : b.openChannel ch = .ok c) (hq : b.queue? name = some q)
      (hqueues : b'.queues = (b.modifyQueue q.id fun q =>
        { q with consumers := q.consumers ++ [⟨number, tag, ch, mode⟩] }).queues)
      (hchannels : b'.channels = (b.modifyChannel ch fun c =>
        { c with consumers := register ⟨tag, name, number⟩ c.consumers }).channels)
      (hdeclared : b'.declared = b.declared) (hexchanges : b'.exchanges = b.exchanges) :
      Turn b (.start q.id ⟨number, tag, ch, mode⟩ name) b'
  | cancelled {ch : Nat} {c : Channel} {tag : Value} {r : Registered}
      (hopen : b.openChannel ch = .ok c) (hr : c.consumers.find? (·.tag.sameKey tag) = some r) :
      Turn b (.finish [(ch, r)]) (b.cancel ch c tag)
  /-- A channel notes a call and ends. -/
  | ended {b₀ : Broker} {ch : Nat} {error : Option Value} (h : b.Alike b₀) :
      Turn b (.finish (b.entriesOf ch)) (b₀.terminate ch error).1
  | disconnected {error : Value} : Turn b (.finish b.registered) (b.disconnect error).1

/-! ## Every step is one change -/

/-- An operation that may be refused is a change where it is one if it is carried out. -/
theorem turn_attempt {r : Except Fault (Broker × Value)} {k : Change}
    (hok : ∀ b' v, r = .ok (b', v) → Turn b k b') (herror : ∀ f, r = .error f → k = .finish []) :
    Turn b k (b.attempt r).broker := by
  cases r with
  | error f =>
    rw [herror f rfl]
    exact .quiet (Alike.refl b)
  | ok p => exact hok p.1 p.2 rfl

/-- A channel that is to end at its own request notes that, and ends unless it has. -/
theorem turn_endChannel (b : Broker) (ch : Nat) (verb : String) (params : Option Value) :
    Turn b (.finish (if (callText verb params).isOk then b.entriesOf ch else []))
      (b.endChannel ch verb params).broker := by
  rw [endChannel]
  cases callText verb params with
  | error thrown => exact .quiet (Alike.refl b)
  | ok text =>
    have hnoted : b.Alike (b.modifyChannel ch fun c => { c with calls := c.calls ++ [text] }) :=
      alike_modifyChannel fun _ => ⟨rfl, rfl⟩
    have hended : Turn b (.finish (b.entriesOf ch))
        ((b.modifyChannel ch fun c => { c with calls := c.calls ++ [text] }).terminate ch none).1 :=
      .ended hnoted
    simp only [Except.isOk, Except.toBool, if_true]
    cases hopen : (b.modifyChannel ch fun c =>
        { c with calls := c.calls ++ [text] }).openChannel ch with
    | ok c => exact hended
    | error f =>
      simp only [terminate, hopen] at hended
      exact hended

/-- A declaration adds a queue, or there is one of that name already. -/
theorem declareQueue_cases (b : Broker) (name : Value) (flags : QueueFlags) :
    ((b.queue? name).isSome ∧ (b.attempt (b.declareQueue name flags)).broker = b) ∨
      (b.queue? name = none ∧ (b.attempt (b.declareQueue name flags)).broker =
        { b with
          queues := b.queues ++ [{ id := b.declared, name, flags }]
          declared := b.declared + 1 }) := by
  rw [declareQueue]
  cases hq : b.queue? name with
  | none => exact .inr ⟨rfl, rfl⟩
  | some q =>
    refine .inl ⟨rfl, ?_⟩
    simp only []
    split <;> rfl

theorem turn_declareQueueSpec (b : Broker) (ch number : Nat) (c : Channel) (spec : Option Value) :
    Turn b (b.change ch number c (.queueDeclare spec)) (b.declareQueueSpec spec).broker := by
  have hissued : b.Alike b.issue := ⟨rfl, rfl, rfl, fun _ => rfl⟩
  simp only [change, declaredName, declareQueueSpec]
  generalize (spec.map QueueFlags.ofSpec).getD .unspecified = flags
  split
  · rcases declareQueue_cases b ((spec.getD .undefined).field "name") flags with
      ⟨hq, hsame⟩ | ⟨hq, hadded⟩
    · rw [if_pos hq, hsame]
      exact .quiet (Alike.refl b)
    · rw [hq, hadded]
      exact .declared hq rfl rfl rfl rfl
  · rcases declareQueue_cases b.issue (.text ("amq.gen-" ++ b.nextIdentity)) flags with
      ⟨hq, hsame⟩ | ⟨hq, hadded⟩
    · rw [if_pos (by exact hq), hsame]
      exact .quiet hissued
    · rw [if_neg (by exact Option.not_isSome_iff_eq_none.mpr hq), hadded]
      exact .declared (by exact hq) rfl rfl rfl rfl

theorem turn_declareExchange {spec reply : Value}
    (h : b.declareExchange spec = .ok (b', reply)) : Turn b (.finish []) b' := by
  simp only [declareExchange, Bind.bind, Except.bind] at h
  split at h
  · cases h
  · split at h
    · cases h
    · split at h
      · split at h
        · cases h
          exact .quiet (Alike.refl b)
        · cases h
      · cases h
        refine .bound rfl rfl rfl fun x' hx' d hd => .inl ?_
        rcases List.mem_append.mp hx' with hx' | hx'
        · exact ⟨x', hx', hd⟩
        · rw [List.mem_singleton.mp hx'] at hd
          cases hd

theorem turn_bind {queueName exchangeName key reply : Value}
    (h : b.bind queueName exchangeName key = .ok (b', reply)) : Turn b (.finish []) b' := by
  simp only [Broker.bind, Bind.bind, Except.bind] at h
  split at h
  · cases h
  · rename_i hq
    split at h
    · cases h
    · cases h
      refine .bound rfl rfl rfl fun x' hx' d hd => ?_
      obtain ⟨x, hx, rfl⟩ := List.mem_map.mp hx'
      split at hd
      · rcases List.mem_append.mp hd with hd | hd
        · exact .inl ⟨x, hx, hd⟩
        · rw [List.mem_singleton.mp hd]
          refine .inr ?_
          rw [queue] at hq
          cases hfound : b.queue? queueName with
          | none => rw [hfound] at hq; cases hq
          | some q => rfl
      · exact .inl ⟨x, hx, hd⟩

theorem turn_deleteExchange {reply : Value} (h : b.deleteExchange name = .ok (b', reply)) :
    Turn b (.finish []) b' := by
  simp only [deleteExchange, Bind.bind, Except.bind] at h
  split at h
  · cases h
  · cases h
    exact .bound rfl rfl rfl fun x' hx' d hd => .inl ⟨x', (List.mem_filter.mp hx').1, hd⟩

theorem turn_purge {reply : Value} (h : b.purge name = .ok (b', reply)) :
    Turn b (.finish []) b' := by
  simp only [purge, Bind.bind, Except.bind] at h
  split at h
  · cases h
  · cases h
    exact .quiet (alike_modifyMessages b _ fun _ => [])

theorem turn_deleteQueue (b : Broker) (ch number : Nat) (c : Channel) (name : Value) :
    Turn b (b.change ch number c (.queueDelete name)) (b.deleteQueue name).broker := by
  simp only [change, deleteQueue, queue]
  cases hq : b.queue? name with
  | none => exact .quiet (Alike.refl b)
  | some q => exact .deleted hq

theorem turn_consume {c : Channel} (hopen : b.openChannel ch = .ok c) (number : Nat)
    (name options : Value) :
    Turn b (b.change ch number c (.basicConsume name options))
      (b.attempt (b.consume ch number name options)).broker := by
  simp only [change, consume, Bind.bind, Except.bind, queue]
  cases hq : b.queue? name with
  | none => exact .quiet (Alike.refl b)
  | some q =>
    simp only [tagOf]
    split <;> exact .started hopen hq rfl rfl rfl rfl

theorem turn_cancel {c : Channel} (hopen : b.openChannel ch = .ok c) (number : Nat) (tag : Value) :
    Turn b (b.change ch number c (.basicCancel tag)) (b.cancel ch c tag) := by
  simp only [change]
  cases hr : c.consumers.find? (·.tag.sameKey tag) with
  | none =>
    simp only [cancel, hr]
    exact .quiet (Alike.refl b)
  | some r => exact .cancelled hopen hr

/-- A settlement only takes copies off a channel. -/
theorem alike_settle {tag : Tag} {multiple : Bool} {us : List Unacked}
    (h : b.settle ch tag multiple = .ok (b', us)) : b.Alike b' := by
  obtain ⟨c, rest, _, _, rfl, _⟩ := settle_eq_ok h
  exact alike_modifyChannel fun _ => ⟨rfl, rfl⟩

theorem turn_publish (b : Broker) (exchangeName key properties body : Value) :
    Turn b (.finish []) (b.publish exchangeName key properties body).broker := by
  simp only [broker_publish, route]
  cases b.targets exchangeName key with
  | error f => exact .quiet (Alike.refl b)
  | ok names => exact .quiet (alike_copyTo ..)

/-- What an open channel is asked for makes one change. -/
theorem turn_perform {c : Channel} (hopen : b.openChannel ch = .ok c) (number : Nat)
    (p : Amqp.Channel.Primitive) :
    Turn b (b.change ch number c p) (b.perform ch number c p).broker := by
  cases p with
  | close params => exact turn_endChannel ..
  | abort params => exact turn_endChannel ..
  | queueDeclare spec => exact turn_declareQueueSpec ..
  | exchangeDeclare spec => exact turn_attempt (fun _ _ => turn_declareExchange) fun _ _ => rfl
  | queueBind queueName exchangeName key =>
    exact turn_attempt (fun _ _ => turn_bind) fun _ _ => rfl
  | basicPublish exchangeName key properties body => exact turn_publish ..
  | queueDelete name => exact turn_deleteQueue ..
  | exchangeDelete name => exact turn_attempt (fun _ _ => turn_deleteExchange) fun _ _ => rfl
  | queuePurge name => exact turn_attempt (fun _ _ => turn_purge) fun _ _ => rfl
  | basicConsume name options => exact turn_consume hopen number name options
  | basicCancel tag => exact turn_cancel hopen number tag
  | basicQos count global => exact .quiet (alike_modifyChannel fun _ => ⟨rfl, rfl⟩)
  | basicAck tag multiple =>
    simp only [perform, change]
    cases h : b.settle ch tag multiple.isTruthy with
    | error f => exact .quiet (Alike.refl b)
    | ok p => exact .quiet (alike_settle h)
  | basicNack tag multiple requeue =>
    simp only [perform, change]
    cases h : b.settle ch tag multiple.isTruthy with
    | error f => exact .quiet (Alike.refl b)
    | ok p =>
      cases requeue.isTruthy with
      | false => exact .quiet (alike_settle h)
      | true => exact .quiet ((alike_settle h).trans (alike_requeue p.1 p.2))

/-- A channel that is opened has registered nothing. -/
theorem alike_open (b : Broker) : b.Alike { b with channels := b.channels ++ [{}] } := by
  refine ⟨rfl, rfl, rfl, fun ch => ?_⟩
  rw [registry, registry, openChannel, openChannel]
  simp only []
  by_cases hch : ch < b.channels.length
  · rw [List.getElem?_append_left hch]
  · have hnone : b.channels[ch]? = none := List.getElem?_eq_none (Nat.le_of_not_lt hch)
    rw [List.getElem?_append_right (Nat.le_of_not_lt hch), hnone]
    cases ch - b.channels.length <;> rfl

/-- Every step makes one change. -/
theorem turn_step (b : Broker) (e : Event) : Turn b (e.change b) (b.step e).broker := by
  cases e with
  | openChannel =>
    simp only [step, openNext]
    split
    · exact .quiet ⟨rfl, rfl, rfl, fun _ => rfl⟩
    · exact .quiet (alike_open b)
  | serve => exact .quiet (alike_serve b)
  | disconnect error => exact .disconnected
  | refuseNext error => exact .quiet ⟨rfl, rfl, rfl, fun _ => rfl⟩
  | request ch number p =>
    simp only [step, Event.change, request]
    cases hopen : b.openChannel ch with
    | ok c => exact turn_perform hopen number p
    | error f =>
      have hempty : b.entriesOf ch = [] := by simp only [entriesOf, registry, hopen, List.map_nil]
      have hended (verb : String) (params : Option Value) :
          Turn b (.finish []) (b.endChannel ch verb params).broker := by
        have h := turn_endChannel b ch verb params
        rwa [hempty, ite_self] at h
      cases p with
      | close params => exact hended ..
      | abort params => exact hended ..
      | _ => exact .quiet (Alike.refl b)

/-! ## Queues and registries after a change -/

/-- Forgetting consumers changes nothing but channels. -/
theorem exists_forgets_eq (b : Broker) (ss : List Consumer) :
    ∃ channels, ss.foldl forget b = { b with channels } := by
  induction ss generalizing b with
  | nil => exact ⟨b.channels, rfl⟩
  | cons s ss ih => exact ih (b.forget s)

theorem relieved_cancel (hb : b.Named) {c : Channel} {tag : Value} {r : Registered}
    (hr : c.consumers.find? (·.tag.sameKey tag) = some r) :
    Relieved [r] b (b.cancel ch c tag) := by
  simp only [cancel, hr]
  rw [removeConsumer_modifyChannel]
  have h := relieved_removeConsumer hb r
  exact ⟨h.shells, h.declared, h.exchanges⟩

theorem relieved_disconnect (hb : b.Named) (error : Value) :
    Relieved (b.registered.map (·.2)) b (b.disconnect error).1 := by
  have hregistered : b.registered.map (·.2) =
      (List.range b.channels.length).flatMap b.registry := by
    simp only [registered, entriesOf, List.map_flatMap, List.map_map, Function.comp_def,
      List.map_id']
  rw [hregistered, fst_disconnect]
  exact relieved_terminates hb (some error) List.nodup_range

namespace Turn

variable {k : Change} {gone : List (Nat × Registered)}

/-- Consumers that end are taken off their queues. -/
theorem relieved (h : Turn b (.finish gone) b') (hb : b.Named) :
    Relieved (gone.map (·.2)) b b' ∨ (gone = [] ∧ b'.queues = b.queues ∧
      b'.declared = b.declared) := by
  cases h with
  | quiet h => exact .inl (Relieved.of_alike h)
  | bound hqueues _ hdeclared _ => exact .inr ⟨rfl, hqueues, hdeclared⟩
  | cancelled _ hr => exact .inl (relieved_cancel hb hr)
  | @ended b₀ ch error h =>
    have hquiet := Relieved.of_alike h
    have hended := hquiet.trans (relieved_terminate (hquiet.named hb) ch error)
    have hgone : (b.entriesOf ch).map (·.2) = [] ++ b₀.registry ch := by
      simp only [entriesOf, List.map_map, Function.comp_def, List.map_id', List.nil_append,
        h.registry]
    rw [hgone]
    exact .inl hended
  | disconnected => exact .inl (relieved_disconnect hb _)

/-- Queues are what is left of those of before, and those that are added. -/
theorem shells (h : Turn b k b') (hb : b.Named) :
    b'.shells = b.shells.filterMap k.remains ++ k.added := by
  cases k with
  | finish gone =>
    rw [Change.added_finish, List.append_nil]
    rcases h.relieved hb with hrelieved | ⟨rfl, hqueues, _⟩
    · exact hrelieved.shells
    · have hall (q : Queue) : (Change.finish []).remains q = some q := q.without?_nil
      rw [Change.filterMap_remains fun q _ => hall q, Broker.shells, hqueues, Broker.shells]
  | declare q =>
    cases h with
    | declared _ hqueues _ _ _ =>
      rw [Change.filterMap_remains fun q _ => rfl, Broker.shells, hqueues, List.map_append,
        Broker.shells]
      rfl
  | delete q =>
    cases h with
    | deleted hq =>
      obtain ⟨channels, hsame⟩ := exists_forgets_eq (b.removeQueue q.id)
        (q.consumers.take ((told q.consumers).length + 1))
      have hguard (q' : Queue) : (Change.delete q).remains q' = Option.guard (·.id != q.id) q' := by
        by_cases hid : q'.id = q.id <;> simp [Change.remains, Option.guard, hid]
      rw [hsame, Change.added_delete, List.append_nil, List.filterMap_congr fun q' _ => hguard q',
        List.filterMap_eq_filter, Broker.shells, Broker.shells, List.filter_map]
      rfl
  | start id s name =>
    rw [Change.added_start, List.append_nil]
    cases h with
    | started _ _ hqueues _ _ _ =>
      rw [Broker.shells, hqueues, modifyQueue, Broker.shells, List.map_map, List.filterMap_map,
        ← List.filterMap_eq_map]
      refine List.filterMap_congr fun q _ => ?_
      simp only [Function.comp_apply, Change.remains, Queue.shell_id, apply_ite Queue.shell]
      rfl

theorem declared_eq (h : Turn b k b') (hb : b.Named) :
    b'.declared = b.declared + k.added.length := by
  cases k with
  | finish gone =>
    rcases h.relieved hb with hrelieved | ⟨_, _, hdeclared⟩
    · exact hrelieved.declared
    · exact hdeclared
  | declare q =>
    cases h with
    | declared _ _ _ hdeclared _ => exact hdeclared
  | delete q =>
    cases h with
    | deleted hq =>
      obtain ⟨channels, hsame⟩ := exists_forgets_eq (b.removeQueue q.id)
        (q.consumers.take ((told q.consumers).length + 1))
      rw [hsame]
      rfl
  | start id s name =>
    cases h with
    | started _ _ _ _ hdeclared _ => exact hdeclared

/-- Exchanges and bindings change only where no queue does. -/
theorem exchanges (h : Turn b k b') (hb : b.Named) :
    b'.exchanges = b.exchanges ∨ (b'.queues = b.queues ∧ ∀ x' ∈ b'.exchanges, ∀ d ∈ x'.bindings,
      (∃ x ∈ b.exchanges, d ∈ x.bindings) ∨ (b.queue? d.queue).isSome) := by
  cases h with
  | quiet h => exact .inl h.exchanges
  | bound hqueues _ _ hbindings => exact .inr ⟨hqueues, hbindings⟩
  | declared _ _ _ _ hexchanges => exact .inl hexchanges
  | started _ _ _ _ _ hexchanges => exact .inl hexchanges
  | @deleted _ q _ =>
    obtain ⟨channels, hsame⟩ := exists_forgets_eq (b.removeQueue q.id)
      (q.consumers.take ((told q.consumers).length + 1))
    rw [hsame]
    exact .inl rfl
  | cancelled _ hr => exact .inl (relieved_cancel hb hr).exchanges
  | @ended b₀ ch error h =>
    have hquiet := Relieved.of_alike h
    exact .inl (hquiet.trans (relieved_terminate (hquiet.named hb) ch error)).exchanges
  | disconnected => exact .inl (relieved_disconnect hb _).exchanges

/-- A queue that is added has a number and a name of its own, and no consumer. -/
theorem of_added (h : Turn b k b') {q : Queue} (hq : q ∈ k.added) :
    q.id = b.declared ∧ b.queue? q.name = none ∧ q.consumers = [] ∧ k.added = [q] := by
  cases h with
  | declared hname _ _ _ _ =>
    obtain rfl := List.mem_singleton.mp hq
    exact ⟨rfl, hname, rfl, rfl⟩
  | _ => cases hq

end Turn

/-- What is left of a queue has its number, its name and its flags. -/
theorem Change.of_remains {k : Change} (h : k.remains q = some q') :
    q'.id = q.id ∧ q'.name = q.name ∧ q'.flags = q.flags := by
  cases k with
  | declare q₀ =>
    obtain rfl := Option.some.inj h
    exact ⟨rfl, rfl, rfl⟩
  | delete q₀ =>
    obtain ⟨_, hsame⟩ := Option.ite_none_left_eq_some.mp h
    obtain rfl := Option.some.inj hsame
    exact ⟨rfl, rfl, rfl⟩
  | start id s name =>
    obtain rfl := Option.some.inj h
    split <;> exact ⟨rfl, rfl, rfl⟩
  | finish gone =>
    rw [Queue.of_without? h]
    exact ⟨rfl, rfl, rfl⟩

/-- Changes keep numbers and names apart. -/
theorem Turn.named {k : Change} (h : Turn b k b') (hb : b.Named) : b'.Named := by
  have hids : b'.queues.map (·.id) =
      (b.shells.filterMap k.remains).map (·.id) ++ k.added.map (·.id) := by
    rw [← ids_shells, h.shells hb, List.map_append]
  have hnames : b'.queues.map (·.name) =
      (b.shells.filterMap k.remains).map (·.name) ++ k.added.map (·.name) := by
    rw [← names_shells, h.shells hb, List.map_append]
  have hold : ((b.shells.filterMap k.remains).map (·.id)).Sublist (b.queues.map (·.id)) := by
    rw [← ids_shells]
    exact sublist_map_filterMap (fun q q' hq => (Change.of_remains hq).1) b.shells
  have holdNames :
      ((b.shells.filterMap k.remains).map (·.name)).Sublist (b.queues.map (·.name)) := by
    rw [← names_shells]
    exact sublist_map_filterMap (fun q q' hq => (Change.of_remains hq).2.1) b.shells
  cases hadded : k.added with
  | nil =>
    rw [hadded, List.map_nil, List.append_nil] at hids hnames
    refine hb.of_sublist (hids ▸ hold) (hnames ▸ holdNames) ?_
    rw [h.declared_eq hb, hadded, List.length_nil, Nat.add_zero]
  | cons q rest =>
    obtain ⟨hid, hname, _, hone⟩ := h.of_added (hadded ▸ List.mem_cons_self ..)
    rw [hone] at hids hnames
    have hdeclared : b'.declared = b.declared + 1 := by rw [h.declared_eq hb, hone]; rfl
    refine ⟨?_, ?_, ?_⟩
    · rw [hids, List.nodup_append]
      refine ⟨hb.distinct.sublist hold, List.nodup_singleton _, fun i hi j hj => ?_⟩
      have hlt := hb.declared i (hold.subset hi)
      rw [List.map_singleton, List.mem_singleton] at hj
      omega
    · rw [hids, hdeclared]
      intro i hi
      rcases List.mem_append.mp hi with hi | hi
      · have hlt := hb.declared i (hold.subset hi)
        omega
      · rw [List.map_singleton, List.mem_singleton] at hi
        omega
    · rw [hnames]
      refine List.pairwise_append.mpr ⟨hb.apart.sublist holdNames, List.pairwise_singleton _ _, ?_⟩
      intro v hv w hw
      rw [List.map_singleton, List.mem_singleton] at hw
      obtain ⟨q', hq', rfl⟩ := List.mem_map.mp (holdNames.subset hv)
      rw [hw]
      exact Bool.eq_false_iff.mpr (List.find?_eq_none.mp hname q' hq')

/-! ## Queues after a step -/

/-- What is left of a queue does not depend on its messages. -/
theorem Change.remains_shell (k : Change) (q : Queue) :
    k.remains q.shell = (k.remains q).map Queue.shell := by
  cases k with
  | declare q₀ => rfl
  | delete q₀ =>
    simp only [remains, Queue.shell_id, apply_ite (Option.map Queue.shell)]
    rfl
  | start id s name =>
    simp only [remains, Queue.shell_id, Option.map_some, apply_ite Queue.shell]
    rfl
  | finish gone => exact (q.shell_without? (gone.map (·.2))).symm

/-- Every queue after a step is what is left of one, or new. -/
theorem exists_of_mem_step (hb : b.Named) {e : Event} (hq : q' ∈ (b.step e).broker.queues) :
    (∃ q ∈ b.queues, (e.change b).remains q.shell = some q'.shell) ∨
      q'.shell ∈ (e.change b).added := by
  have hmem : q'.shell ∈ (b.step e).broker.shells := List.mem_map_of_mem hq
  rw [(turn_step b e).shells hb] at hmem
  rcases List.mem_append.mp hmem with hmem | hmem
  · obtain ⟨x, hx, hremains⟩ := List.mem_filterMap.mp hmem
    obtain ⟨q, hq, rfl⟩ := List.mem_map.mp hx
    exact .inl ⟨q, hq, hremains⟩
  · exact .inr hmem

/-- What is left of a queue is there after the step. -/
theorem mem_step_of_remains (hb : b.Named) {e : Event} (hq : q ∈ b.queues) {x : Queue}
    (hx : (e.change b).remains q.shell = some x) :
    ∃ q' ∈ (b.step e).broker.queues, q'.shell = x := by
  have hmem : x ∈ (b.step e).broker.shells := by
    rw [(turn_step b e).shells hb]
    exact List.mem_append_left _ (List.mem_filterMap.mpr ⟨q.shell, List.mem_map_of_mem hq, hx⟩)
  exact List.mem_map.mp hmem

/-- The event deletes the queue. -/
def Event.Deletes (b : Broker) (e : Event) (q : Queue) : Prop :=
  ∃ ch number name, e = .request ch number (.queueDelete name) ∧ b.IsOpen ch ∧
    b.queue? name = some q

/-- The entries of registries that end with an event, each with its channel. -/
def Event.finished (b : Broker) (e : Event) : List (Nat × Registered) :=
  match e.change b with
  | .finish gone => gone
  | _ => []

/-- The event ends all consumers of a queue that goes with the last one. -/
structure Event.Empties (b : Broker) (e : Event) (q : Queue) : Prop where
  autoDelete : q.flags.autoDelete.isTruthy = true
  named : ∃ x ∈ e.finished b, q.name.sameKey x.2.queue = true
  taken : ∀ s ∈ q.consumers, ∃ x ∈ e.finished b,
    q.name.sameKey x.2.queue = true ∧ x.2.takes s = true

/-- The queue goes with the event. -/
def Event.Removes (b : Broker) (e : Event) (q : Queue) : Prop := e.Deletes b q ∨ e.Empties b q

/-- A queue is deleted by a request for it on an open channel, and by nothing else. -/
theorem change_eq_delete_iff {e : Event} : e.change b = .delete q ↔ e.Deletes b q := by
  constructor
  · intro h
    cases e with
    | request ch number p =>
      simp only [Event.change] at h
      cases hopen : b.openChannel ch with
      | error f => simp only [hopen, reduceCtorEq] at h
      | ok c =>
        rw [hopen] at h
        cases p with
        | queueDelete name =>
          simp only [change] at h
          cases hq : b.queue? name with
          | none => simp only [hq, reduceCtorEq] at h
          | some q' =>
            simp only [hq, Change.delete.injEq] at h
            exact ⟨ch, number, name, rfl, ⟨c, hopen⟩, h ▸ hq⟩
        | queueDeclare spec => simp only [change] at h; split at h <;> cases h
        | basicConsume name options => simp only [change] at h; split at h <;> cases h
        | _ => cases h
    | _ => cases h
  · rintro ⟨ch, number, name, rfl, ⟨c, hopen⟩, hq⟩
    simp only [Event.change, hopen, change, hq]

/-- Nothing is left of a queue that is deleted or loses its last consumer. -/
theorem remains_eq_none_iff (hb : b.Named) {e : Event} (hq : q ∈ b.queues) :
    (e.change b).remains q = none ↔ e.Removes b q := by
  have hdeletes := change_eq_delete_iff (b := b) (e := e) (q := q)
  have hempties : e.Empties b q ↔ q.without? ((e.finished b).map (·.2)) = none := by
    rw [Queue.without?_eq_none_iff]
    simp only [List.mem_map, exists_exists_and_eq_and]
    exact ⟨fun h => ⟨h.autoDelete, h.named, h.taken⟩, fun h => ⟨h.1, h.2.1, h.2.2⟩⟩
  rw [Event.Removes, ← hdeletes, hempties, Event.finished]
  cases hk : e.change b with
  | finish gone => simp only [Change.remains, reduceCtorEq, false_or]
  | declare q₀ =>
    simp only [Change.remains, List.map_nil, Queue.without?_nil, reduceCtorEq, or_self]
  | start id s name =>
    simp only [Change.remains, List.map_nil, Queue.without?_nil, reduceCtorEq, or_self]
  | delete q₀ =>
    obtain ⟨_, _, name, _, _, hq₀⟩ := change_eq_delete_iff.mp hk
    have hmem : q₀ ∈ b.queues := mem_of_queue? hq₀
    simp only [Change.remains, List.map_nil, Queue.without?_nil, reduceCtorEq, or_false,
      Change.delete.injEq, ite_eq_left_iff, imp_false, not_not]
    exact ⟨fun hid => hb.eq_of_id hmem hq hid.symm, fun hsame => by rw [hsame]⟩

/-- A queue is gone after a step that removes it, and only then. -/
theorem gone_step_iff (hb : b.Named) {e : Event} (hq : q ∈ b.queues) :
    (∀ q' ∈ (b.step e).broker.queues, q'.id ≠ q.id) ↔ e.Removes b q := by
  have hshell : (e.change b).remains q.shell = none ↔ e.Removes b q := by
    rw [Change.remains_shell, Option.map_eq_none_iff, remains_eq_none_iff hb hq]
  rw [← hshell]
  constructor
  · intro hgone
    by_contra hsome
    obtain ⟨x, hx⟩ := Option.ne_none_iff_exists'.mp hsome
    obtain ⟨q', hq', rfl⟩ := mem_step_of_remains hb hq hx
    exact hgone q' hq' (Change.of_remains hx).1
  · intro hnone q' hq' hid
    rcases exists_of_mem_step hb hq' with ⟨q₁, hq₁, hremains⟩ | hadded
    · have hsame : q₁.id = q.id := (Change.of_remains hremains).1.symm.trans hid
      rw [hb.eq_of_id hq₁ hq hsame, hnone] at hremains
      cases hremains
    · have hnew : q'.id = b.declared := ((turn_step b e).of_added hadded).1
      have hlt := hb.declared q.id (List.mem_map_of_mem hq)
      omega

/-! ## Runs -/

theorem reached_concat (events : List Event) (e : Event) :
    reached (events ++ [e]) = ((reached events).step e).broker := by
  rw [reached, run, List.foldl_append]
  rfl

theorem named_empty : Named {} := ⟨List.nodup_nil, List.forall_mem_nil _, List.Pairwise.nil⟩

/-- Numbers and names are apart in every run. -/
theorem named_reached (events : List Event) : (reached events).Named := by
  induction events using List.reverseRecOn with
  | nil => exact named_empty
  | append_singleton events e ih =>
    rw [reached_concat]
    exact (turn_step _ e).named ih

/-- What holds at first and is kept by a step exactly if nothing happens that breaks it, holds at
every moment exactly if that never happens. -/
theorem forall_prefix_iff {α : Type} {holds : List α → Prop} {breaks : List α → α → Prop}
    {events : List α} (hnil : holds [])
    (hstep : ∀ u e v, events = u ++ e :: v → holds u → (holds (u ++ [e]) ↔ ¬breaks u e)) :
    (∀ u v, events = u ++ v → holds u) ↔ ∀ u e v, events = u ++ e :: v → ¬breaks u e := by
  constructor
  · intro hholds u e v hevents
    have hafter : holds (u ++ [e]) := hholds (u ++ [e]) v (by simp [hevents])
    exact (hstep u e v hevents (hholds u (e :: v) hevents)).mp hafter
  · intro hnever u
    induction u using List.reverseRecOn with
    | nil => exact fun _ _ => hnil
    | append_singleton u e ih =>
      intro v hevents
      have hevents : events = u ++ e :: v := by simp [hevents]
      exact (hstep u e v hevents (ih (e :: v) hevents)).mpr (hnever u e v hevents)

end Amqp.Broker
