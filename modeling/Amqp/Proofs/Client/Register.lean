import Amqp.Proofs.Client.Adapter
import Mathlib.Data.List.Nodup
import Mathlib.Tactic.Push

/-!
# What an adapter does about consumers

A consumer is asked for, started and dropped. A step starts a consumer if the client answers the
call that asked for it, and it drops a tag if the client answers a cancel of it or cancels, on its
own, the consumer that the adapter knows by it. No other step changes which tags are listed, or by
which tag the adapter knows a consumer.
-/

namespace Amqp.Client

/-- The primitive starts or cancels a consumer. -/
def concernsConsumers : Channel.Primitive → Bool
  | .basicConsume .. => true
  | .basicCancel _ => true
  | _ => false

namespace Event

/-- The number of the call that asks for a primitive with the event. -/
def issued? : Event → Option Nat
  | .issue call _ => some call
  | _ => none

/-- The tag that is wished for the consumer that the event asks for. -/
def wish? : Event → Option Value
  | .issue _ (.basicConsume _ options) =>
    (options.read "consumerTag").toOption.map (·.orElse (.text ""))
  | _ => none

end Event

namespace Adapter

variable {a : Adapter} {e : Event} {call k : Nat} {t : String} {p : Channel.Primitive}

/-- The tags by which the adapter knows its consumers, in the order in which they were asked for. -/
def names (a : Adapter) : List Value := a.consumers.map (·.tag)

/-- The call with that number, if it waits for its answer. -/
def call? (a : Adapter) (call : Nat) : Option Pending := a.pending.find? (·.id == call)

/-- The consumer that is started with an event, by the tag that it is given. -/
def begins? (a : Adapter) : Event → Option Started
  | .answered call (.replied reply) =>
    (a.call? call).bind fun p =>
      match p.primitive with
      | .basicConsume .. => (reply.read "consumerTag").toOption.map (⟨·, p.consumer⟩)
      | _ => none
  | _ => none

/-- The tag that is dropped with an event. -/
def ends? (a : Adapter) : Event → Option Value
  | .answered call (.replied _) =>
    (a.call? call).bind fun p =>
      match p.primitive with
      | .basicCancel tag => some tag
      | _ => none
  | .dropped consumer => a.names[consumer]?
  | _ => none

theorem sameKey_text_iff {x : Value} : x.sameKey (.text t) = true ↔ x = .text t := by
  cases x <;> simp [Value.sameKey]

/-- The consumers and their tags stay as they are. -/
structure Keeps (a b : Adapter) : Prop where
  consumers : b.consumers = a.consumers
  tags : b.tags = a.tags

theorem Keeps.names {b : Adapter} (h : Keeps a b) : b.names = a.names :=
  congrArg (List.map Consumer.tag) h.consumers

theorem keeps_take (a : Adapter) (id : Nat) (p : Channel.Primitive) (tag : Tag) (multiple : Value)
    (call : Message → Call) : Keeps a (a.take id p tag multiple call).1 := by
  unfold take
  cases a.unsettled.entry? tag with
  | none => exact ⟨rfl, rfl⟩
  | some message =>
    simp only
    cases (a.unsettled.settle tag multiple.isTruthy).fault <;> exact ⟨rfl, rfl⟩

theorem keeps_endChannel (a : Adapter) (id : Nat) (p : Channel.Primitive)
    (entries : Except Value (List LogEntry)) : Keeps a (a.endChannel id p entries).1 := by
  cases entries <;> exact ⟨rfl, rfl⟩

theorem keeps_hand (a : Adapter) (consumer : Nat) (message : Message) :
    Keeps a (a.hand consumer message).1 := by
  unfold hand
  cases a.consumers[consumer]? with
  | none => exact ⟨rfl, rfl⟩
  | some c =>
    simp only
    split <;> exact ⟨rfl, rfl⟩

/-- A primitive that starts no consumer leaves all consumers as they are. -/
theorem keeps_issue (a : Adapter) (id : Nat)
    (hp : ∀ queue options, p ≠ .basicConsume queue options) : Keeps a (a.issue id p).1 := by
  cases p with
  | basicConsume queue options => exact absurd rfl (hp queue options)
  | close params => exact keeps_endChannel a id _ _
  | abort params =>
    simp only [issue]
    cases abortEntries (params.bind Channel.truthy?) <;> exact ⟨rfl, rfl⟩
  | queueDeclare spec =>
    simp only [issue, declareQueue]
    split <;> exact ⟨rfl, rfl⟩
  | exchangeDeclare spec =>
    simp only [issue, declareExchange]
    cases spec.read "name" <;> exact ⟨rfl, rfl⟩
  | basicAck tag multiple => exact keeps_take a id _ tag multiple _
  | basicNack tag multiple requeue => exact keeps_take a id _ tag multiple _
  | _ => exact ⟨rfl, rfl⟩

theorem tags_issue (a : Adapter) (id : Nat) (p : Channel.Primitive) :
    (a.issue id p).1.tags = a.tags := by
  by_cases hp : ∀ queue options, p ≠ .basicConsume queue options
  · exact (keeps_issue a id hp).tags
  · push Not at hp
    obtain ⟨queue, options, rfl⟩ := hp
    simp only [issue, consume]
    cases options.read "consumerTag" <;> rfl

/-- A consumer that is asked for is known by the tag that is wished for. -/
theorem names_issue (a : Adapter) (id : Nat) (p : Channel.Primitive) :
    (a.issue id p).1.names = a.names ++ (Event.wish? (.issue id p)).toList := by
  by_cases hp : ∀ queue options, p ≠ .basicConsume queue options
  · rw [(keeps_issue a id hp).names, Event.wish?]
    · exact (List.append_nil _).symm
    · exact fun _ queue options he => hp queue options (Event.issue.inj he).2
  · push Not at hp
    obtain ⟨queue, options, rfl⟩ := hp
    simp only [issue, consume, Event.wish?]
    cases options.read "consumerTag" with
    | error fault => exact (List.append_nil _).symm
    | ok tag => simp [names, await, Except.toOption]

theorem mem_addTag {tags : List Started} {s : Started} (hs : ∃ t, s.tag = .text t) {x : Value} :
    x ∈ (addTag tags s).map (·.tag) ↔ s.tag = x ∨ x ∈ tags.map (·.tag) := by
  obtain ⟨t, ht⟩ := hs
  unfold addTag
  split
  · rename_i hany
    obtain ⟨r, hr, hsame⟩ := List.any_eq_true.mp hany
    rw [ht, sameKey_text_iff] at hsame
    refine ⟨.inr, ?_⟩
    rintro (rfl | hx)
    · exact List.mem_map.mpr ⟨r, hr, hsame.trans ht.symm⟩
    · exact hx
  · simp [or_comm, eq_comm]

theorem nodup_addTag {tags : List Started} {s : Started} (hs : ∃ t, s.tag = .text t)
    (h : (tags.map (·.tag)).Nodup) : ((addTag tags s).map (·.tag)).Nodup := by
  obtain ⟨t, ht⟩ := hs
  unfold addTag
  split
  · exact h
  · rename_i hnone
    rw [List.map_append, List.nodup_append']
    refine ⟨h, List.nodup_singleton _, fun x hx hnew => hnone ?_⟩
    obtain rfl := List.mem_singleton.mp hnew
    obtain ⟨r, hr, hsame⟩ := List.mem_map.mp hx
    exact List.any_eq_true.mpr ⟨r, hr, by rw [ht, sameKey_text_iff]; exact hsame.trans ht⟩

theorem mem_filter_tags {tags : List Started} {x : Value} :
    x ∈ (tags.filter fun s => !s.tag.sameKey (.text t)).map (·.tag) ↔
      x ∈ tags.map (·.tag) ∧ x ≠ .text t := by
  have hkept (s : Started) : (!s.tag.sameKey (.text t)) = true ↔ s.tag ≠ .text t := by
    rw [Bool.not_eq_true', Ne, ← sameKey_text_iff, Bool.not_eq_true]
  simp only [List.mem_map, List.mem_filter, hkept]
  constructor
  · rintro ⟨s, ⟨hs, hne⟩, rfl⟩
    exact ⟨⟨s, hs, rfl⟩, hne⟩
  · rintro ⟨⟨s, hs, rfl⟩, hne⟩
    exact ⟨s, ⟨hs, hne⟩, rfl⟩

theorem dropConsumer_text (tags : List Started) (t : String) (consumer : Nat) :
    dropConsumer tags ⟨.text t, consumer⟩ = tags.filter fun s => !s.tag.sameKey (.text t) := by
  simp [dropConsumer, Value.sameKey]

/-- A consumer that is started is known by the tag that it is given. -/
theorem names_started (a : Adapter) (consumer : Nat) (tag : Value) :
    (a.started consumer tag).names = a.names.set consumer tag := by
  apply List.ext_getElem?
  intro i
  simp only [names, started, List.getElem?_map, List.getElem?_modify, List.getElem?_set]
  by_cases hi : consumer = i
  · subst hi
    cases hc : a.consumers[consumer]? with
    | none => simpa using List.getElem?_eq_none_iff.mp hc
    | some c => simpa using (List.getElem?_eq_some_iff.mp hc).1
  · simp [hi]

/-- An answer takes effect if the call waits for it. -/
theorem step_answered_fst (a : Adapter) (call : Nat) (outcome : Channel.Outcome) :
    (a.step (.answered call outcome)).1 =
      match a.call? call, outcome with
      | some p, .replied reply =>
        ({ a with pending := a.pending.filter (·.id != call) }.accept p reply).1
      | some _, .threw _ => { a with pending := a.pending.filter (·.id != call) }
      | none, _ => a := by
  cases hcall : a.call? call with
  | none => simp only [step, show a.pending.find? (·.id == call) = none from hcall]
  | some p =>
    rw [step_answered hcall]
    cases outcome with
    | threw thrown => rfl
    | replied reply => rw [answer_replied]

/-- An event does not start one consumer and drop the tag of another one. -/
theorem ends?_of_begins? {s : Started} (hs : a.begins? e = some s) : a.ends? e = none := by
  cases e with
  | answered call outcome =>
    cases outcome with
    | threw => cases hs
    | replied reply =>
      obtain ⟨p, hcall, hs⟩ := Option.bind_eq_some_iff.mp hs
      simp only [ends?, hcall, Option.bind_some]
      cases hp : p.primitive with
      | basicCancel tag => simp [hp] at hs
      | _ => rfl
  | _ => cases hs

/-- What a step makes of the tags that are listed. -/
theorem tags_step (hends : ∀ x, a.ends? e = some x → ∃ t, x = .text t) : (a.step e).1.tags =
    match a.begins? e, a.ends? e with
    | some s, _ => addTag a.tags s
    | none, some x => a.tags.filter fun s => !s.tag.sameKey x
    | none, none => a.tags := by
  cases e with
  | issue id p => exact tags_issue a id p
  | answered call outcome =>
    rw [step_answered_fst]
    cases hcall : a.call? call with
    | none => cases outcome <;> simp [begins?, ends?, hcall]
    | some p =>
      cases outcome with
      | threw thrown => rfl
      | replied reply =>
        simp only [begins?, ends?, hcall, Option.bind_some]
        cases hp : p.primitive with
        | basicConsume queue options =>
          simp only [accept, hp]
          cases reply.read "consumerTag" <;> rfl
        | _ => simp only [accept, hp]
  | dropped consumer =>
    simp only [step, begins?, ends?, names, List.getElem?_map] at hends ⊢
    cases hc : a.consumers[consumer]? with
    | none => rfl
    | some c =>
      rw [hc] at hends
      obtain ⟨t, ht⟩ := hends c.tag rfl
      simp only [ht, dropConsumer_text, Option.map_some]
  | handed consumer message => exact (keeps_hand a consumer message).tags
  | failed error =>
    simp only [step]
    split <;> rfl
  | listen | closed => rfl

theorem mem_tags_step (hends : ∀ x, a.ends? e = some x → ∃ t, x = .text t)
    (hbegins : ∀ s, a.begins? e = some s → ∃ t, s.tag = .text t) {x : Value} :
    x ∈ (a.step e).1.tags.map (·.tag) ↔
      (∃ s, a.begins? e = some s ∧ s.tag = x) ∨
        x ∈ a.tags.map (·.tag) ∧ a.ends? e ≠ some x := by
  rw [tags_step hends]
  cases hs : a.begins? e with
  | some s =>
    obtain ⟨t, ht⟩ := hbegins s hs
    simp [mem_addTag ⟨t, ht⟩, ends?_of_begins? hs]
  | none =>
    cases hx : a.ends? e with
    | none => simp
    | some y =>
      obtain ⟨t, rfl⟩ := hends y hx
      simp only [mem_filter_tags]
      simp [eq_comm]

/-- No tag is listed twice. -/
theorem nodup_tags_step (hends : ∀ x, a.ends? e = some x → ∃ t, x = .text t)
    (hbegins : ∀ s, a.begins? e = some s → ∃ t, s.tag = .text t)
    (h : (a.tags.map (·.tag)).Nodup) : ((a.step e).1.tags.map (·.tag)).Nodup := by
  rw [tags_step hends]
  split
  · rename_i s hs
    exact nodup_addTag (hbegins s hs) h
  · exact h.sublist (List.filter_sublist.map _)
  · exact h

/-- What a step makes of the tags by which the adapter knows its consumers. -/
theorem names_step (a : Adapter) (e : Event) : (a.step e).1.names =
    (match a.begins? e with
      | some s => a.names.set s.consumer s.tag
      | none => a.names) ++ e.wish?.toList := by
  cases e with
  | issue id p => exact names_issue a id p
  | answered call outcome =>
    rw [step_answered_fst]
    cases hcall : a.call? call with
    | none => cases outcome <;> simp [begins?, hcall, Event.wish?]
    | some p =>
      cases outcome with
      | threw thrown => simp [begins?, names, Event.wish?]
      | replied reply =>
        simp only [begins?, hcall, Option.bind_some]
        cases hp : p.primitive with
        | basicConsume queue options =>
          simp only [accept, hp]
          cases hread : reply.read "consumerTag" with
          | error fault => simp [Except.toOption, names, Event.wish?]
          | ok tag =>
            exact (names_started _ p.consumer tag).trans (List.append_nil _).symm
        | _ => simp [accept, hp, names, Event.wish?]
  | dropped consumer =>
    simp only [step, begins?, Event.wish?]
    split <;> simp [names]
  | handed consumer message =>
    simp [step, (keeps_hand a consumer message).names, begins?, Event.wish?]
  | failed error =>
    simp only [step]
    split <;> simp [begins?, Event.wish?]
  | listen | closed => simp [step, begins?, names, Event.wish?]

/-- The number of the consumer that a primitive starts, if `n` consumers have been asked for. -/
def number (n : Nat) : Channel.Primitive → Nat
  | .basicConsume .. => n
  | _ => 0

theorem pending_answered (a : Adapter) (call : Nat) (outcome : Channel.Outcome) :
    (a.step (.answered call outcome)).1.pending = a.pending.filter (·.id != call) := by
  rw [step_answered_fst]
  cases hcall : a.call? call with
  | none =>
    refine (List.filter_eq_self.mpr fun p hp => ?_).symm
    simpa using List.find?_eq_none.mp hcall p hp
  | some p =>
    cases outcome with
    | threw thrown => rfl
    | replied reply => exact (accept_fst _ p reply).2.1

/-- Only asking for primitives and answering them changes which calls wait. -/
theorem pending_step_of_quiet (hissue : ∀ id p, e ≠ .issue id p)
    (hanswered : ∀ id outcome, e ≠ .answered id outcome) : (a.step e).1.pending = a.pending := by
  cases e with
  | issue id p => exact absurd rfl (hissue id p)
  | answered id outcome => exact absurd rfl (hanswered id outcome)
  | handed consumer message =>
    simp only [step, hand]
    cases a.consumers[consumer]? with
    | none => rfl
    | some c =>
      simp only
      split <;> rfl
  | dropped consumer =>
    simp only [step]
    split <;> rfl
  | failed error =>
    simp only [step]
    split <;> rfl
  | listen | closed => rfl

/-- A primitive about consumers is passed on. -/
theorem pending_issue (hp : concernsConsumers p = true)
    (hread : ∀ queue options, p = .basicConsume queue options →
      ∃ tag, options.read "consumerTag" = .ok tag) (a : Adapter) (id : Nat) :
    (a.issue id p).1.pending = a.pending ++ [⟨id, p, number a.names.length p⟩] := by
  cases p with
  | basicConsume queue options =>
    obtain ⟨tag, htag⟩ := hread queue options rfl
    simp [issue, consume, htag, await, names, number]
  | basicCancel tag => rfl
  | _ => cases hp

/-- What waits has been asked for under numbers of its own. -/
theorem pending_sublist_step (a : Adapter) (e : Event) :
    ((a.step e).1.pending.map (·.id)).Sublist (a.pending.map (·.id) ++ e.issued?.toList) := by
  cases e with
  | issue id p =>
    cases issued_issue a id p with
    | passed consumer call hpending =>
      rw [step, hpending, List.map_append]
      exact List.Sublist.refl _
    | refused thrown hpending =>
      rw [step, hpending]
      exact List.sublist_append_left _ _
  | answered id outcome =>
    rw [pending_answered]
    exact (List.filter_sublist.map _).trans (List.sublist_append_left _ _)
  | _ =>
    rw [pending_step_of_quiet (by rintro _ _ ⟨⟩) (by rintro _ _ ⟨⟩)]
    exact List.sublist_append_left _ _

/-- A call about consumers waits once it is asked for, until it is answered. -/
theorem mem_pending_step (hp : concernsConsumers p = true)
    (hread : ∀ id queue options, e = .issue id (.basicConsume queue options) →
      ∃ tag, options.read "consumerTag" = .ok tag) :
    ⟨call, p, k⟩ ∈ (a.step e).1.pending ↔
      (e = .issue call p ∧ k = number a.names.length p) ∨
        ⟨call, p, k⟩ ∈ a.pending ∧ ∀ outcome, e ≠ .answered call outcome := by
  cases e with
  | issue id q =>
    rw [step]
    by_cases hq : concernsConsumers q = true
    · rw [pending_issue hq (fun queue options h => hread id queue options (by rw [h]))]
      simp only [List.mem_append, List.mem_singleton, Pending.mk.injEq, Event.issue.injEq]
      constructor
      · rintro (hmem | ⟨rfl, rfl, rfl⟩)
        · exact .inr ⟨hmem, fun _ => by rintro ⟨⟩⟩
        · exact .inl ⟨⟨rfl, rfl⟩, rfl⟩
      · rintro (⟨⟨rfl, rfl⟩, rfl⟩ | ⟨hmem, -⟩)
        · exact .inr ⟨rfl, rfl, rfl⟩
        · exact .inl hmem
    · have hother : q ≠ p := fun h => hq (h ▸ hp)
      constructor
      · intro hmem
        rcases (issued_issue a id q).mem_pending hmem with hbefore | ⟨-, hsame⟩
        · exact .inr ⟨hbefore, fun _ => by rintro ⟨⟩⟩
        · exact absurd hsame.symm hother
      · rintro (⟨heq, -⟩ | ⟨hmem, -⟩)
        · exact absurd (Event.issue.inj heq).2 hother
        · exact (issued_issue a id q).mem_of_mem hmem
  | answered id outcome =>
    rw [pending_answered, List.mem_filter]
    constructor
    · rintro ⟨hmem, hne⟩
      refine .inr ⟨hmem, fun o h => bne_iff_ne.mp hne ?_⟩
      exact (Event.answered.inj h).1.symm
    · rintro (⟨⟨⟩, -⟩ | ⟨hmem, hne⟩)
      exact ⟨hmem, bne_iff_ne.mpr fun h => hne outcome (by rw [← h])⟩
  | _ =>
    rw [pending_step_of_quiet (by rintro _ _ ⟨⟩) (by rintro _ _ ⟨⟩)]
    simp

end Adapter

end Amqp.Client
