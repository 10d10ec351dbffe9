import Amqp.Proofs.Broker.Bindings
import Amqp.Proofs.Broker.Ready

/-!
# Where a message goes

A message is for the queues that the bindings of its exchange take it to; the default exchange takes
it to the queue that its key names. A publish finds each of these queues once, however many bindings
lead there, and leaves one copy behind what is ready on it. Where bindings name queues that exist,
nothing but the exchange can be wrong, and nothing else of the broker changes than the schedule.
-/

namespace Amqp

namespace ExchangeType

/-- A binding under the first key takes a message under the second one to its queue. -/
def Matches (type : ExchangeType) (bound key : String) : Prop :=
  match type with
  | .fanout => True
  | .topic => Topic.isMatch bound key = true
  | .headers => False
  | .direct => bound = key
  | .other _ => bound = key

instance (type : ExchangeType) (bound key : String) : Decidable (type.Matches bound key) :=
  match type with
  | .fanout => isTrue trivial
  | .topic => inferInstanceAs (Decidable (Topic.isMatch bound key = true))
  | .headers => isFalse id
  | .direct => inferInstanceAs (Decidable (bound = key))
  | .other _ => inferInstanceAs (Decidable (bound = key))

/-- Keys that are texts can be compared. -/
theorem selects_text (type : ExchangeType) (bound key : String) :
    type.selects (.text bound) (.text key) = .ok (decide (type.Matches bound key)) := by
  cases type with
  | fanout | headers => rfl
  | topic =>
    have hwords : topic.selects (.text bound) (.text key) = .ok (Topic.isMatch bound key) := rfl
    rw [hwords]
    exact congrArg Except.ok (Bool.decide_coe _).symm
  | direct | other =>
    simp only [selects, Value.isEqual, Value.sameKey, Matches]
    rfl

end ExchangeType

namespace Broker

variable {b : Broker} {q q' : Queue} {c : Copy} {ch : Nat} {names : List Value} {name : Value}
  {exchangeName key : String}

/-! ## The queues that are meant -/

/-- A binding of an exchange of that type takes a message under the key to its queue. -/
def Binding.Takes (d : Binding) (type : ExchangeType) (key : String) : Prop :=
  ∃ bound, d.key = .text bound ∧ type.Matches bound key

/-- A message that is published to the exchange under the key is for the queue. -/
def IsFor (b : Broker) (exchangeName key : String) (q : Queue) : Prop :=
  if exchangeName = defaultExchange then q.name.sameKey (.text key) = true
  else ∃ x, b.exchange? (.text exchangeName) = some x ∧
    ∃ d ∈ x.bindings, d.Takes x.type key ∧ q.name.sameKey d.queue = true

/-- The keys of all bindings are texts. -/
def TextKeys (b : Broker) : Prop :=
  ∀ x ∈ b.exchanges, ∀ d ∈ x.bindings, ∃ bound, d.key = .text bound

/-- An exchange selects the queues of the bindings that take the message. -/
theorem selected_text {x : Exchange} (hkeys : ∀ d ∈ x.bindings, ∃ bound, d.key = .text bound)
    (key : String) :
    ∃ names, x.selected (.text key) = .ok names ∧
      ∀ name, name ∈ names ↔ ∃ d ∈ x.bindings, d.Takes x.type key ∧ d.queue = name := by
  classical
  have hselects (d : Binding) (hd : d ∈ x.bindings) :
      x.type.selects d.key (.text key) = .ok (decide (d.Takes x.type key)) := by
    obtain ⟨bound, hbound⟩ := hkeys d hd
    rw [hbound, ExchangeType.selects_text]
    refine congrArg Except.ok (decide_eq_decide.mpr ⟨fun h => ⟨bound, hbound, h⟩, ?_⟩)
    rintro ⟨bound', hbound', h⟩
    rw [hbound, Value.text.injEq] at hbound'
    exact hbound' ▸ h
  refine ⟨(x.bindings.filter fun d => decide (d.Takes x.type key)).map (·.queue), ?_,
    fun name => ?_⟩
  · rw [Exchange.selected, filterM_eq_ok hselects]
    rfl
  · simp only [List.mem_map, List.mem_filter, decide_eq_true_eq, and_assoc]

/-- The names that are left once each is there only once are different keys. -/
theorem pairwise_distinct (names : List Value) :
    (distinct names).Pairwise fun v w => v.sameKey w = false := by
  induction names with
  | nil => exact .nil
  | cons name names ih =>
    rw [distinct, List.pairwise_cons]
    refine ⟨fun w hw => ?_, ih.filter _⟩
    have hne := (List.mem_filter.mp hw).2
    rw [Value.sameKey_comm]
    simpa using hne

/-- No name is lost by that: it is the same key as one that is left. -/
theorem exists_mem_distinct_iff (names : List Value) (key : Value) :
    (∃ name ∈ distinct names, key.sameKey name = true) ↔
      ∃ name ∈ names, key.sameKey name = true := by
  induction names with
  | nil => rfl
  | cons name names ih =>
    simp only [distinct, List.exists_mem_cons_iff, ← ih]
    by_cases hname : key.sameKey name = true
    · simp only [hname, true_or]
    · refine or_congr_right ⟨?_, ?_⟩
      · rintro ⟨w, hw, hsame⟩
        exact ⟨w, (List.mem_filter.mp hw).1, hsame⟩
      · rintro ⟨w, hw, hsame⟩
        have hne : w.sameKey name = false := by
          rw [← Value.sameKey_congr hsame, Bool.eq_false_iff.mpr hname]
        exact ⟨w, List.mem_filter.mpr ⟨hw, by rw [hne, Bool.not_false]⟩, hsame⟩

theorem isEqual_default_eq_false (h : exchangeName ≠ defaultExchange) :
    (Value.text exchangeName).isEqual (.text defaultExchange) = false := beq_eq_false_iff_ne.mpr h

/-- The names that a publish finds are different keys, and they are those of the queues that the
message is for. -/
structure Finds (b : Broker) (exchangeName key : String) (names : List Value) : Prop where
  targets : b.targets (.text exchangeName) (.text key) = .ok names
  apart : names.Pairwise fun v w => v.sameKey w = false
  found : ∀ name ∈ names, (b.queue? name).isSome
  meant : ∀ q ∈ b.queues, (∃ name ∈ names, q.name.sameKey name = true) ↔ b.IsFor exchangeName key q

theorem finds_default (b : Broker) (key : String) :
    ∃ names, b.Finds defaultExchange key names := by
  have htargets : b.targets (.text defaultExchange) (.text key) =
      .ok (if (b.queue? (.text key)).isSome then [.text key] else []) := rfl
  refine ⟨_, htargets, ?_, fun name hname => ?_, fun q hq => ?_⟩
  · split
    · exact List.pairwise_singleton _ _
    · exact .nil
  · split at hname
    · rename_i hsome
      rwa [List.mem_singleton.mp hname]
    · cases hname
  · rw [IsFor, if_pos rfl]
    split
    · simp only [List.mem_singleton, exists_eq_left]
    · rename_i hnone
      constructor
      · rintro ⟨name, hname, _⟩
        cases hname
      · exact fun hname => absurd (List.find?_isSome.mpr ⟨q, hq, hname⟩) hnone

theorem finds_declared (hbound : b.Bound) (hkeys : b.TextKeys)
    (hdefault : exchangeName ≠ defaultExchange) {x : Exchange}
    (hx : b.exchange? (.text exchangeName) = some x) (key : String) :
    ∃ names, b.Finds exchangeName key names := by
  have hmem : x ∈ b.exchanges := List.mem_of_find?_eq_some hx
  obtain ⟨names, hselected, hnames⟩ := selected_text (hkeys x hmem) key
  have htargets : b.targets (.text exchangeName) (.text key) = .ok (distinct names) := by
    rw [targets_declared _ (isEqual_default_eq_false hdefault) hx, hselected]
    rfl
  refine ⟨_, htargets, pairwise_distinct names, fun name hname => ?_, fun q _ => ?_⟩
  · obtain ⟨d, hd, _, rfl⟩ := (hnames name).mp (distinct_subset names hname)
    exact hbound x hmem d hd
  · rw [exists_mem_distinct_iff, IsFor, if_neg hdefault]
    constructor
    · rintro ⟨_, hname, hsame⟩
      obtain ⟨d, hd, htakes, rfl⟩ := (hnames _).mp hname
      exact ⟨x, hx, d, hd, htakes, hsame⟩
    · rintro ⟨x', hx', d, hd, htakes, hsame⟩
      obtain rfl := Option.some.inj (hx'.symm.trans hx)
      exact ⟨d.queue, (hnames _).mpr ⟨d, hd, htakes, rfl⟩, hsame⟩

/-! ## The copies that are made -/

/-- A queue that exists has the name exactly if it is the queue of that name. -/
theorem Named.sameKey_iff_id (hb : b.Named) (hq : q.shell ∈ b.shells)
    (hname : b.queue? name = some q') : q.name.sameKey name = true ↔ q.id = q'.id := by
  obtain ⟨q₀, hq₀, hshell⟩ := List.mem_map.mp hq
  have hid₀ : q₀.id = q.id := by rw [← Queue.shell_id q₀, hshell, Queue.shell_id]
  have hname₀ : q₀.name = q.name := by rw [← Queue.shell_name q₀, hshell, Queue.shell_name]
  obtain ⟨hq', hname'⟩ := hb.queue?_eq_some_iff.mp hname
  rw [← hid₀, ← hname₀]
  exact ⟨fun h => congrArg Queue.id (hb.eq_of_sameKey hq₀ hq' h hname'),
    fun h => hb.eq_of_id hq₀ hq' h ▸ hname'⟩

/-- Copying a message to queues of different names leaves one copy behind what is ready on each of
them, and nothing on another queue. -/
theorem readyOn_copyTo_eq (hb : b.Named) (hq : q.shell ∈ b.shells) (c : Copy)
    (hapart : names.Pairwise fun v w => v.sameKey w = false)
    (hfound : ∀ name ∈ names, (b.queue? name).isSome) :
    ((∃ name ∈ names, q.name.sameKey name = true) →
      ∃ serial, (b.copyTo c names).1.readyOn q.id = b.readyOn q.id ++ [{ c with serial }]) ∧
    ((¬∃ name ∈ names, q.name.sameKey name = true) →
      (b.copyTo c names).1.readyOn q.id = b.readyOn q.id) := by
  induction names generalizing b with
  | nil => exact ⟨fun ⟨_, hname, _⟩ => absurd hname List.not_mem_nil, fun _ => rfl⟩
  | cons name names ih =>
    obtain ⟨hother, hapart⟩ := List.pairwise_cons.mp hapart
    obtain ⟨hfirst, hfound⟩ := List.forall_mem_cons.mp hfound
    obtain ⟨q₁, hq₁⟩ := Option.isSome_iff_exists.mp hfirst
    have hsame := alike_append b q₁ c
    obtain ⟨hjoined, hleft⟩ := ih (hsame.named hb) (hsame.shells ▸ hq) hapart
      fun w hw => (queue?_append_isSome b q₁ c w).trans (hfound w hw)
    have hcopied : (b.copyTo c (name :: names)).1 = ((b.append q₁ c).copyTo c names).1 := by
      rw [copyTo, queue, hq₁]
    have hready := readyOn_append (mem_of_queue? hq₁) c q.id
    rw [hcopied, List.exists_mem_cons_iff, hb.sameKey_iff_id hq hq₁]
    by_cases hid : q.id = q₁.id
    · -- no later name is that of the same queue
      have hnone : ¬∃ w ∈ names, q.name.sameKey w = true := by
        rintro ⟨w, hw, hnamed⟩
        rw [Value.sameKey_congr ((hb.sameKey_iff_id hq hq₁).mpr hid), hother w hw] at hnamed
        cases hnamed
      refine ⟨fun _ => ⟨b.copied, ?_⟩, fun h => absurd (.inl hid) h⟩
      rw [hleft hnone, hready, if_pos hid]
    · rw [if_neg hid] at hready
      rw [hready] at hjoined hleft
      exact ⟨fun h => hjoined (h.resolve_left hid), fun h => hleft fun hlater => h (.inr hlater)⟩

/-- Copying a message changes nothing but queues, their schedule and the count of copies. -/
theorem copyTo_rest (b : Broker) (c : Copy) (names : List Value) :
    { (b.copyTo c names).1 with
      queues := b.queues, scheduled := b.scheduled, copied := b.copied } = b := by
  induction names generalizing b with
  | nil => rfl
  | cons name names ih =>
    rw [copyTo]
    cases b.queue name with
    | error f => rfl
    | ok q =>
      exact congrArg (fun b' : Broker =>
        { b' with queues := b.queues, scheduled := b.scheduled, copied := b.copied })
        (ih (b.append q c))

/-! ## Publishing -/

/-- What a publish does: it succeeds if the exchange is the default one or declared. Each queue that
the message is for has one copy more, behind what was ready on it. The other queues have what they
had, and nothing else has changed than the schedule and the count of copies. -/
structure Routed (b : Broker) (exchangeName key : String) (properties : Value) (body : Payload)
    (r : Response) : Prop where
  accepted : ¬r.IsRefused ↔
    exchangeName = defaultExchange ∨ (b.exchange? (.text exchangeName)).isSome
  copied : ∀ q ∈ b.queues, b.IsFor exchangeName key q → ∃ serial,
    r.broker.readyOn q.id = q.messages ++
      [⟨serial, .text exchangeName, .text key, properties, body, false⟩]
  others : ∀ q ∈ b.queues, ¬b.IsFor exchangeName key q → r.broker.readyOn q.id = q.messages
  shells : r.broker.shells = b.shells
  rest : { r.broker with
    queues := b.queues, scheduled := b.scheduled, copied := b.copied } = b
  quiet : r.effects = []

/-- Nobody is told of a publish. -/
theorem effects_publish (b : Broker) (exchangeName key properties body : Value) :
    (b.publish exchangeName key properties body).effects = [] := by
  rw [publish]
  split <;> rfl

/-- A publish that finds its queues copies its message to them. -/
theorem Finds.routed (h : b.Finds exchangeName key names) (hb : b.Named)
    (hexchange : exchangeName = defaultExchange ∨ (b.exchange? (.text exchangeName)).isSome)
    (properties body : Value) :
    b.Routed exchangeName key properties (bytesOf body)
      (b.publish (.text exchangeName) (.text key) properties body) := by
  have hbroker : (b.publish (.text exchangeName) (.text key) properties body).broker =
      (b.copyTo ⟨0, .text exchangeName, .text key, properties, bytesOf body, false⟩ names).1 := by
    simp only [broker_publish, route, h.targets]
  have hready (q : Queue) (hq : q ∈ b.queues) :=
    readyOn_copyTo_eq hb (List.mem_map_of_mem hq)
      ⟨0, .text exchangeName, .text key, properties, bytesOf body, false⟩ h.apart h.found
  constructor
  case accepted => exact iff_of_true (not_isRefused_publish h.targets h.found) hexchange
  case copied =>
    intro q hq hmeant
    obtain ⟨serial, hjoined⟩ := (hready q hq).1 ((h.meant q hq).mpr hmeant)
    exact ⟨serial, by rw [hbroker, hjoined, hb.readyOn_eq hq]⟩
  case others =>
    intro q hq hother
    rw [hbroker, (hready q hq).2 (mt (h.meant q hq).mp hother), hb.readyOn_eq hq]
  case shells => exact hbroker ▸ (alike_copyTo b _ names).shells
  case rest => exact hbroker ▸ copyTo_rest b _ names
  case quiet => exact effects_publish ..

/-- A publish to an exchange that is not declared is for no queue, and it changes nothing. -/
theorem routed_undeclared (hb : b.Named) (hdefault : exchangeName ≠ defaultExchange)
    (hx : b.exchange? (.text exchangeName) = none) (properties body : Value) :
    b.Routed exchangeName key properties (bytesOf body)
      (b.publish (.text exchangeName) (.text key) properties body) := by
  have htargets := targets_undeclared (.text key) (isEqual_default_eq_false hdefault) hx
  have hbroker : (b.publish (.text exchangeName) (.text key) properties body).broker = b := by
    simp only [broker_publish, route, htargets]
  constructor
  case accepted =>
    refine iff_of_false (not_not_intro (isRefused_publish_iff.mpr (.inl ⟨_, htargets⟩))) ?_
    simp only [hdefault, hx, Option.isSome_none, Bool.false_eq_true, or_self, not_false_eq_true]
  case copied =>
    intro q _ hmeant
    rw [IsFor, if_neg hdefault, hx] at hmeant
    obtain ⟨x, ⟨⟩, _⟩ := hmeant
  case others => exact fun q hq _ => by rw [hbroker, hb.readyOn_eq hq]
  case shells => rw [hbroker]
  case rest => rw [hbroker]
  case quiet => exact effects_publish ..

/-- **Routing.** Where bindings name queues that exist and their keys are texts, a publish on an
open channel does exactly what its exchange, the bindings of it and the key say. -/
theorem routed_publish (hb : b.Named) (hbound : b.Bound) (hkeys : b.TextKeys) (hopen : b.IsOpen ch)
    (number : Nat) (exchangeName key : String) (properties body : Value) :
    b.Routed exchangeName key properties (bytesOf body)
      (b.step (.request ch number
        (.basicPublish (.text exchangeName) (.text key) properties body))) := by
  obtain ⟨c, hc⟩ := hopen
  rw [step_of_openChannel hc, perform]
  by_cases hdefault : exchangeName = defaultExchange
  · subst hdefault
    obtain ⟨names, hfinds⟩ := finds_default b key
    exact hfinds.routed hb (.inl rfl) properties body
  · cases hx : b.exchange? (.text exchangeName) with
    | none => exact routed_undeclared hb hdefault hx properties body
    | some x =>
      obtain ⟨names, hfinds⟩ := finds_declared hbound hkeys hdefault hx key
      exact hfinds.routed hb (.inr (hx ▸ rfl)) properties body

/-- Two bindings of the first queue take errors of the kernel, and none of the second one. -/
def doublyBound : List Event :=
  [.openChannel,
    .request 0 1 (.queueDeclare (some (.table [("name", .text "errors")]))),
    .request 0 2 (.queueDeclare (some (.table [("name", .text "mail")]))),
    .request 0 3 (.exchangeDeclare (.table [("name", .text "logs"), ("type", .text "topic")])),
    .request 0 4 (.queueBind (.text "errors") (.text "logs") (.text "*.error")),
    .request 0 5 (.queueBind (.text "errors") (.text "logs") (.text "kernel.#")),
    .request 0 6 (.queueBind (.text "mail") (.text "logs") (.text "mail.*"))]

/-- An error of the kernel comes to the first queue once, and to no other one. -/
theorem doublyBound_routed :
    ((reached doublyBound).Named ∧ (reached doublyBound).Bound ∧ (reached doublyBound).TextKeys ∧
      (reached doublyBound).IsOpen 0) ∧
    (reached doublyBound).Routed "logs" "kernel.error" (.table []) []
      ((reached doublyBound).step (.request 0 7
        (.basicPublish (.text "logs") (.text "kernel.error") (.table []) (.bytes [])))) := by
  have hexchanges : (reached doublyBound).exchanges = [⟨.text "logs", .topic, .bool false,
      [⟨.text "errors", .text "*.error"⟩, ⟨.text "errors", .text "kernel.#"⟩,
        ⟨.text "mail", .text "mail.*"⟩]⟩] := rfl
  have hbound : (reached doublyBound).Bound := by
    simp only [Bound, hexchanges, List.forall_mem_cons]
    exact ⟨⟨rfl, rfl, rfl, List.forall_mem_nil _⟩, List.forall_mem_nil _⟩
  have hkeys : (reached doublyBound).TextKeys := by
    simp only [TextKeys, hexchanges, List.forall_mem_cons]
    exact ⟨⟨⟨_, rfl⟩, ⟨_, rfl⟩, ⟨_, rfl⟩, List.forall_mem_nil _⟩, List.forall_mem_nil _⟩
  have hopen : (reached doublyBound).IsOpen 0 := ⟨_, rfl⟩
  exact ⟨⟨named_reached _, hbound, hkeys, hopen⟩,
    routed_publish (named_reached _) hbound hkeys hopen 7 "logs" "kernel.error" (.table [])
      (.bytes [])⟩

end Broker

end Amqp
