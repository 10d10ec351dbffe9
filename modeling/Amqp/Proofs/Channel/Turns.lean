import Amqp.Proofs.Channel.Closed

/-!
# Handlers start in the order of arrival

An open channel takes in a message that arrives. The delivery gets the next number, and its handler
joins the end of those that wait; a turn starts the first one. So at every moment the handlers that
have started are those of the first deliveries, and the others wait in the order of their
deliveries.
-/

namespace Amqp.Channel

/-! ## What is taken in and what starts -/

/-- A message that a channel takes in: the consumer that it is for, and who acknowledges it. -/
structure Arrival where
  consumer : Nat
  mode : AckMode
  message : Message

/-- What the channel keeps of the message. -/
def Arrival.label (a : Arrival) : Message × AckMode := (a.message, a.mode)

/-- The message that an event brings. -/
def Event.arrival? : Event → Option Arrival
  | .arrived consumer mode message => some ⟨consumer, mode, message⟩
  | _ => none

/-- The event is a turn. -/
def Event.isTurn : Event → Bool
  | .turn => true
  | _ => false

/-- How many turns there are. -/
def turnsIn (events : List Event) : Nat := events.countP (·.isTurn)

/-- The handler that starts. -/
def Effect.start? : Effect → Option Turn
  | .start t => some t
  | _ => none

/-- The handlers that start, in order. -/
def startsOf (effects : List Effect) : List Turn := effects.filterMap Effect.start?

theorem turnsIn_cons (e : Event) (events : List Event) :
    turnsIn (e :: events) = turnsIn [e] + turnsIn events := by
  rw [turnsIn, ← List.singleton_append, List.countP_append, turnsIn, turnsIn]

theorem isTurn_eq_false_iff {e : Event} : e.isTurn = false ↔ e ≠ .turn := by
  cases e <;> simp [Event.isTurn]

theorem turnsIn_of_not_isTurn {e : Event} (h : e.isTurn = false) : turnsIn [e] = 0 := by
  rw [turnsIn, List.countP_singleton, h, if_neg Bool.false_ne_true]

theorem startsOf_append (effects effects' : List Effect) :
    startsOf (effects ++ effects') = startsOf effects ++ startsOf effects' :=
  List.filterMap_append ..

/-! ## What has started and what waits -/

/-- The tags of all deliveries, in the order they arrived. -/
def tags (c : Channel) : List Tag := c.labels.map (·.1.tag)

/-- The tag of the delivery whose handler starts. -/
def startedTag? (c : Channel) : Effect → Option Tag
  | .start t => c.tags[t.delivery]?
  | _ => none

namespace Machine

/-- The messages that the channel takes in with an event. -/
def takes (m : Machine) (e : Event) : List Arrival :=
  if m.channel.isOpen then e.arrival?.toList else []

/-- The tags of the deliveries whose handlers start with an event. -/
def startedBy (m : Machine) (e : Event) : List Tag :=
  (m.step e).2.filterMap m.channel.startedTag?

/-- The handlers of the deliveries with these tags have started: they are the first ones, and the
handlers of the others wait, in order. -/
structure InTurn (m : Machine) (started : List Tag) : Prop where
  first : started <+: m.channel.tags
  waiting : m.turns.map (·.delivery) =
    List.range' started.length (m.channel.tags.length - started.length)

variable {m : Machine} {e : Event} {started : List Tag}

/-! ## Steps -/

/-- A turn starts the first handler that waits, and nothing else starts one. -/
theorem startsOf_step (m : Machine) (e : Event) :
    startsOf (m.step e).2 = m.turns.take (turnsIn [e]) := by
  cases hturn : e.isTurn with
  | true =>
    cases e with
    | turn =>
      rw [effects_turn]
      cases m.turns <;> rfl
    | _ => cases hturn
  | false =>
    have hnone : startsOf (m.step e).2 = [] := by
      refine List.filterMap_eq_nil_iff.mpr fun f hf => ?_
      cases f with
      | start t =>
        rw [(head_of_start_mem_step hf).1] at hturn
        cases hturn
      | _ => rfl
    rw [hnone, turnsIn_of_not_isTurn hturn, List.take_zero]

theorem takes_of_closed (h : m.channel.isOpen = false) (e : Event) : m.takes e = [] := by
  rw [takes, h, if_neg Bool.false_ne_true]

theorem takes_of_none (h : e.arrival? = none) : m.takes e = [] := by
  rw [takes, h]
  split <;> rfl

/-- An event brings one message at most. -/
theorem takes_cases (m : Machine) (e : Event) : m.takes e = [] ∨ ∃ a, m.takes e = [a] := by
  rw [takes]
  split
  · cases e.arrival? with
    | none => exact .inl rfl
    | some a => exact .inr ⟨a, rfl⟩
  · exact .inl rfl

/-- A message arrives at an open channel. -/
theorem step_arrived_of_open (h : m.channel.isOpen = true) (consumer : Nat) (mode : AckMode)
    (message : Message) :
    m.step (.arrived consumer mode message) =
      ({ m with
        channel := m.channel.receive message mode
        turns := m.turns ++ [⟨m.channel.deliveries.length, consumer⟩] }, []) := by
  simp only [step, arrive, h, if_true]

/-- The channel keeps what it takes in. -/
theorem labels_step_eq (m : Machine) (e : Event) :
    (m.step e).1.channel.labels = m.channel.labels ++ (m.takes e).map Arrival.label := by
  cases e with
  | arrived consumer mode message =>
    cases hopen : m.channel.isOpen with
    | false =>
      rw [step_arrived_of_closed hopen, takes_of_closed hopen, List.map_nil, List.append_nil]
    | true =>
      rw [step_arrived_of_open hopen, takes, hopen]
      exact labels_receive ..
  | _ =>
    rw [takes_of_none rfl, List.map_nil, List.append_nil]
    rcases labels_step m _ with hsame | ⟨l, hl, _⟩
    · exact hsame
    · cases hl

/-- Apart from turns and messages, nothing touches the handlers that wait. -/
theorem turns_step_of_aside (hturn : e.isTurn = false) (harrival : e.arrival? = none) :
    (m.step e).1.turns = m.turns := by
  have hchange := m.step_transition e
  generalize (m.step e).1 = m' at hchange
  cases hchange with
  | turned => cases hturn
  | arrived => cases harrival
  | _ => rfl

/-- What a turn does not start goes on waiting, and what is taken in joins the end. -/
theorem turns_step_eq (m : Machine) (e : Event) :
    (m.step e).1.turns = m.turns.drop (turnsIn [e]) ++
      (m.takes e).map fun a => ⟨m.channel.deliveries.length, a.consumer⟩ := by
  cases e with
  | turn =>
    rw [takes_of_none rfl, List.map_nil, List.append_nil]
    simp only [step]
    cases hturns : m.turns with
    | nil => exact hturns
    | cons t rest => rfl
  | arrived consumer mode message =>
    rw [turnsIn_of_not_isTurn rfl, List.drop_zero]
    cases hopen : m.channel.isOpen with
    | false =>
      rw [step_arrived_of_closed hopen, takes_of_closed hopen, List.map_nil, List.append_nil]
    | true =>
      rw [step_arrived_of_open hopen, takes, hopen]
      rfl
  | _ =>
    rw [turnsIn_of_not_isTurn rfl, List.drop_zero, takes_of_none rfl, List.map_nil,
      List.append_nil]
    exact turns_step_of_aside rfl rfl

theorem startedBy_eq (m : Machine) (e : Event) :
    m.startedBy e =
      (m.turns.take (turnsIn [e])).filterMap fun t => m.channel.tags[t.delivery]? := by
  rw [← startsOf_step, startsOf, List.filterMap_filterMap, startedBy]
  refine List.filterMap_congr fun f _ => ?_
  cases f <;> rfl

/-- Only a turn starts a handler. -/
theorem startedBy_of_ne (he : e ≠ .turn) : m.startedBy e = [] := by
  rw [startedBy_eq, turnsIn_of_not_isTurn (isTurn_eq_false_iff.mpr he), List.take_zero,
    List.filterMap_nil]

/-- A step leaves the tags as they are, or adds that of a message that arrives. -/
theorem tags_step (m : Machine) (e : Event) :
    (m.step e).1.channel.tags = m.channel.tags ∨
      ∃ l, e.label? = some l ∧ (m.step e).1.channel.tags = m.channel.tags ++ [l.1.tag] := by
  rcases labels_step m e with hsame | ⟨l, hl, hmore⟩
  · exact .inl (by rw [tags, hsame, tags])
  · exact .inr ⟨l, hl, by rw [tags, hmore, List.map_append, tags, List.map_singleton]⟩

/-- Apart from turns, the handlers that wait change only when a message arrives. -/
theorem turns_step (he : e ≠ .turn) :
    (m.step e).1.turns = m.turns ∧ (m.step e).1.channel.tags = m.channel.tags ∨
      ∃ t tag, t.delivery = m.channel.tags.length ∧ (m.step e).1.turns = m.turns ++ [t] ∧
        (m.step e).1.channel.tags = m.channel.tags ++ [tag] := by
  have hturns := turns_step_eq m e
  have htags : (m.step e).1.channel.tags =
      m.channel.tags ++ (m.takes e).map (·.message.tag) := by
    rw [tags, labels_step_eq, List.map_append, List.map_map, tags]
    rfl
  rw [turnsIn_of_not_isTurn (isTurn_eq_false_iff.mpr he), List.drop_zero] at hturns
  rcases takes_cases m e with h | ⟨a, h⟩
  · rw [h, List.map_nil, List.append_nil] at hturns htags
    exact .inl ⟨hturns, htags⟩
  · rw [h] at hturns htags
    refine .inr ⟨_, _, ?_, hturns, htags⟩
    rw [tags, labels, List.length_map, List.length_map]

/-- A turn starts the handler of the first delivery whose handler has not started. -/
theorem InTurn.turn (h : m.InTurn started) :
    (m.step .turn).1.InTurn (started ++ m.startedBy .turn) := by
  cases hturns : m.turns with
  | nil =>
    have hsame : m.step .turn = (m, []) := by simp only [Machine.step, hturns]
    rw [startedBy, hsame, List.filterMap_nil, List.append_nil]
    exact h
  | cons t rest =>
    have hstep : m.step .turn = ({ m with turns := rest }, [.start t]) := by
      simp only [Machine.step, hturns]
    obtain ⟨later, hlater⟩ := h.first
    have hwaiting := h.waiting
    rw [hturns, ← hlater, List.length_append, Nat.add_sub_cancel_left] at hwaiting
    cases later with
    | nil => cases hwaiting
    | cons tag later =>
      obtain ⟨ht, hrest⟩ := List.cons.inj hwaiting
      have hstarted : m.startedBy .turn = [tag] := by
        simp [startedBy, hstep, startedTag?, ht, ← hlater]
      have hcount : m.channel.tags.length - (started ++ [tag]).length = later.length := by
        simp only [← hlater, List.length_append, List.length_cons, List.length_nil]
        omega
      rw [hstarted, hstep]
      refine ⟨⟨later, by rw [List.append_assoc]; exact hlater⟩, ?_⟩
      rw [hcount, List.length_append, List.length_singleton]
      exact hrest

/-- Every step keeps handlers in turn. -/
theorem InTurn.step (h : m.InTurn started) (e : Event) :
    (m.step e).1.InTurn (started ++ m.startedBy e) := by
  by_cases he : e = .turn
  · subst he
    exact h.turn
  · rw [startedBy_of_ne he, List.append_nil]
    rcases turns_step (m := m) he with ⟨hturns, htags⟩ | ⟨t, tag, ht, hturns, htags⟩
    · exact ⟨htags ▸ h.first, by rw [hturns, htags, h.waiting]⟩
    · have hle := h.first.length_le
      refine ⟨htags ▸ h.first.trans (List.prefix_append _ _), ?_⟩
      rw [hturns, htags, List.map_append, h.waiting, List.length_append, List.length_singleton,
        Nat.sub_add_comm hle, List.range'_1_concat, Nat.add_sub_of_le hle, List.map_singleton, ht]

/-- No handler of a channel that has just been opened has started. -/
theorem inTurn_opened (id : String) : (opened id).InTurn [] := ⟨List.nil_prefix, rfl⟩

end Machine

end Amqp.Channel
