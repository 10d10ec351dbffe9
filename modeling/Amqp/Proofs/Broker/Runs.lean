import Amqp.Proofs.Broker.Steps

/-!
# Runs of a broker

A run from a sound broker is a chain of moves. Its publishes make the copies, and the deliveries
that its users hear of are the handovers in the books.
-/

namespace Amqp.Broker

/-- The broker after a run. -/
def reached (events : List Event) : Broker := ({} : Broker).run events

/-- What becomes of copies in a run, from a broker on. -/
def booksFrom (b : Broker) : List Event → Books
  | [] => {}
  | e :: rest => b.entries e ++ (b.step e).broker.booksFrom rest

/-- What becomes of copies in a run. -/
def books (events : List Event) : Books := ({} : Broker).booksFrom events

/-- What users of channels hear in a run, from a broker on. -/
def emittedFrom (b : Broker) : List Event → List Effect
  | [] => []
  | e :: rest => (b.step e).effects ++ (b.step e).broker.emittedFrom rest

/-- What users of channels hear in a run. -/
def emitted (events : List Event) : List Effect := ({} : Broker).emittedFrom events

/-- Every consumer that is started in a run is new to its channel. -/
def IsFreshFrom (b : Broker) : List Event → Prop
  | [] => True
  | e :: rest => e.IsNew b ∧ (b.step e).broker.IsFreshFrom rest

/-- No consumer is started in a run while its channel has a live one of the same tag, or one that
was asked for under the same number. -/
def IsFresh (events : List Event) : Prop := ({} : Broker).IsFreshFrom events

/-- The effect hands a message to a consumer. -/
def Effect.isDelivery : Effect → Bool
  | .deliver .. => true
  | _ => false

variable {s t : Books}

/-! ## Books and effects of a step -/

/-- The books tell of copies that leave the broker, and of nothing else. -/
structure Books.OnlyRetires (s : Books) : Prop where
  made : s.made = []
  handed : s.handed = []

namespace Books.OnlyRetires

theorem nil : OnlyRetires {} := ⟨rfl, rfl⟩

theorem retiring (reason : Reason) (copies : List Copy) :
    OnlyRetires (Books.retiring reason copies) := ⟨rfl, rfl⟩

theorem append (h : s.OnlyRetires) (h' : t.OnlyRetires) : (s ++ t).OnlyRetires :=
  ⟨by rw [made_append, h.made, h'.made]; rfl, by rw [handed_append, h.handed, h'.handed]; rfl⟩

end Books.OnlyRetires

open Books (OnlyRetires)

theorem onlyRetires_terminated (b : Broker) (ch : Nat) : (b.terminated ch).OnlyRetires := by
  rw [terminated]
  split
  · exact .nil
  · exact (OnlyRetires.retiring ..).append (.retiring ..)

theorem onlyRetires_disconnected (b : Broker) (error : Value) (chs : List Nat) :
    (b.disconnected error chs).OnlyRetires := by
  induction chs generalizing b with
  | nil => exact .nil
  | cons ch chs ih => exact (onlyRetires_terminated b ch).append (ih _)

theorem onlyRetires_endedBy (b : Broker) (ch : Nat) (verb : String) (params : Option Value) :
    (b.endedBy ch verb params).OnlyRetires := by
  rw [endedBy]
  split
  · exact .nil
  · exact onlyRetires_terminated ..

theorem onlyRetires_settled {b : Broker} {ch : Nat} {tag : Tag} {multiple : Bool}
    {after : Broker → List Unacked → Books} (h : ∀ b us, (after b us).OnlyRetires) :
    (b.settled ch tag multiple after).OnlyRetires := by
  rw [settled]
  split
  · exact .nil
  · exact h ..

/-- Only a publish makes copies, and only serving a queue hands them out. -/
theorem entries_cases (b : Broker) (e : Event) :
    (∃ ch number exchangeName key properties body,
      e = .request ch number (.basicPublish exchangeName key properties body) ∧
      (b.step e).broker = (b.publish exchangeName key properties body).broker ∧
      b.entries e = { made := b.published exchangeName key properties body }) ∨
      e = .serve ∨ (b.entries e).OnlyRetires := by
  cases e with
  | serve => exact .inr (.inl rfl)
  | openChannel => exact .inr (.inr .nil)
  | refuseNext error => exact .inr (.inr .nil)
  | disconnect error => exact .inr (.inr (onlyRetires_disconnected ..))
  | request ch number p =>
    simp only [entries, step, request]
    cases hopen : b.openChannel ch with
    | error f => exact .inr (.inr .nil)
    | ok c =>
      cases p with
      | basicPublish exchangeName key properties body =>
        exact .inl ⟨ch, number, exchangeName, key, properties, body, rfl, rfl, rfl⟩
      | close params => exact .inr (.inr (onlyRetires_endedBy ..))
      | abort params => exact .inr (.inr (onlyRetires_endedBy ..))
      | queueDelete | queuePurge | basicCancel =>
        refine .inr (.inr ?_)
        simp only [performed]
        split
        · exact .nil
        · exact .retiring ..
      | basicAck tag multiple =>
        exact .inr (.inr (onlyRetires_settled fun _ _ => .retiring ..))
      | basicNack tag multiple requeue =>
        refine .inr (.inr (onlyRetires_settled fun _ _ => ?_))
        split <;> exact .retiring ..
      | _ => exact .inr (.inr .nil)

/-- Ending a channel hands out nothing. -/
theorem deliveries_terminate (b : Broker) (ch : Nat) (error : Option Value) :
    (b.terminate ch error).2.filter Effect.isDelivery = [] := by
  simp only [terminate]
  split <;> rfl

theorem deliveries_disconnect (b : Broker) (error : Value) :
    (b.disconnect error).2.filter Effect.isDelivery = [] := by
  rw [disconnect]
  refine List.foldlRecOn
    (motive := fun r : Broker × List Effect => r.2.filter Effect.isDelivery = []) _ _ rfl ?_
  intro r hr ch _
  simp only [List.filter_append, hr, deliveries_terminate, List.append_nil]

theorem deliveries_endChannel (b : Broker) (ch : Nat) (verb : String) (params : Option Value) :
    (b.endChannel ch verb params).effects.filter Effect.isDelivery = [] := by
  simp only [endChannel]
  split
  · rfl
  · split
    · rfl
    · exact deliveries_terminate ..

theorem deliveries_attempt (b : Broker) (r : Except Fault (Broker × Value)) :
    (b.attempt r).effects.filter Effect.isDelivery = [] := by
  cases r <;> rfl

/-- No primitive hands out a copy. -/
theorem deliveries_perform (b : Broker) (ch number : Nat) (c : Channel)
    (p : Amqp.Channel.Primitive) :
    (b.perform ch number c p).effects.filter Effect.isDelivery = [] := by
  cases p with
  | close params => exact deliveries_endChannel ..
  | abort params => exact deliveries_endChannel ..
  | queueDeclare spec =>
    simp only [perform, declareQueueSpec]
    split <;> exact deliveries_attempt ..
  | basicPublish exchangeName key properties body =>
    simp only [perform, publish]
    split <;> rfl
  | queueDelete name =>
    simp only [perform, deleteQueue]
    split
    · rfl
    · refine List.filter_eq_nil_iff.mpr fun x hx => ?_
      obtain ⟨s, _, rfl⟩ := List.mem_map.mp hx
      exact Bool.false_ne_true
  | basicCancel tag => rfl
  | basicQos count global => rfl
  | _ => exact deliveries_attempt ..

/-- Only serving a queue hands out copies. -/
theorem deliveries_step_of_ne (b : Broker) {e : Event} (he : e ≠ .serve) :
    (b.step e).effects.filter Effect.isDelivery = [] := by
  cases e with
  | serve => exact absurd rfl he
  | openChannel =>
    simp only [step, openNext]
    split <;> rfl
  | refuseNext error => rfl
  | disconnect error => exact deliveries_disconnect ..
  | request ch number p =>
    simp only [step, request]
    split
    · exact deliveries_perform ..
    · exact deliveries_endChannel ..
    · exact deliveries_endChannel ..
    · rfl

/-- The deliveries of a step are its handovers. -/
theorem deliveries_step (b : Broker) (e : Event) :
    (b.step e).effects.filter Effect.isDelivery = (b.entries e).handed.map Handover.effect := by
  by_cases he : e = .serve
  · subst he
    have heffects : (b.step .serve).effects = b.served.map Handover.effect := effects_serve
    rw [heffects]
    refine List.filter_eq_self.mpr fun x hx => ?_
    obtain ⟨h, _, rfl⟩ := List.mem_map.mp hx
    rfl
  · have hhanded : (b.entries e).handed = [] := by
      rcases entries_cases b e with ⟨_, _, _, _, _, _, _, _, hentries⟩ | hserve | honly
      · rw [hentries]
      · exact absurd hserve he
      · exact honly.handed
    rw [deliveries_step_of_ne b he, hhanded, List.map_nil]

/-- The deliveries of a run are its handovers. -/
theorem deliveries_emittedFrom (b : Broker) (events : List Event) :
    (b.emittedFrom events).filter Effect.isDelivery =
      (b.booksFrom events).handed.map Handover.effect := by
  induction events generalizing b with
  | nil => rfl
  | cons e rest ih =>
    rw [emittedFrom, booksFrom, List.filter_append, deliveries_step, ih, Books.handed_append,
      List.map_append]

/-- What a publish makes is what it was given, under the numbers that it uses up. -/
theorem mem_published {b : Broker} {exchangeName key properties body : Value} {c : Copy}
    (hc : c ∈ b.published exchangeName key properties body) :
    c = ⟨c.serial, exchangeName, key, properties, bytesOf body, false⟩ ∧ b.copied ≤ c.serial ∧
      c.serial < (b.publish exchangeName key properties body).broker.copied := by
  obtain ⟨serial, hserial, rfl⟩ := List.mem_map.mp hc
  have hrange := List.mem_range'_1.mp hserial
  exact ⟨rfl, hrange.1, by simp only; omega⟩

/-- Every copy of a run was made by one of its publishes, as it was given. -/
theorem exists_publish {b : Broker} {events : List Event} {c : Copy}
    (hc : c ∈ (b.booksFrom events).made) :
    ∃ u e v ch number exchangeName key properties body, events = u ++ e :: v ∧
      e = .request ch number (.basicPublish exchangeName key properties body) ∧
      (b.run u).copied ≤ c.serial ∧ c.serial < ((b.run u).step e).broker.copied ∧
      c = ⟨c.serial, exchangeName, key, properties, bytesOf body, false⟩ := by
  induction events generalizing b with
  | nil => exact nomatch hc
  | cons e rest ih =>
    rw [booksFrom, Books.made_append] at hc
    rcases List.mem_append.mp hc with hc | hc
    · rcases entries_cases b e with
        ⟨ch, number, exchangeName, key, properties, body, he, hbroker, hentries⟩ | rfl | honly
      · rw [hentries] at hc
        obtain ⟨hgiven, hge, hlt⟩ := mem_published hc
        rw [← hbroker] at hlt
        exact ⟨[], e, rest, ch, number, exchangeName, key, properties, body, rfl, he, hge, hlt,
          hgiven⟩
      · exact nomatch hc
      · rw [honly.made] at hc
        exact nomatch hc
    · obtain ⟨u, e', v, ch, number, exchangeName, key, properties, body, rfl, hmade⟩ := ih hc
      exact ⟨e :: u, e', v, ch, number, exchangeName, key, properties, body, rfl, hmade⟩

/-- A run is a chain of moves, as long as every consumer that it starts is new to its channel. -/
theorem moves_run {b : Broker} {events : List Event} (hkeyed : b.Keyed) (hattended : b.Attended)
    (hfresh : b.IsFreshFrom events) : Moves b [] (b.run events) [] (b.booksFrom events) := by
  induction events generalizing b with
  | nil => exact Moves.refl
  | cons e rest ih =>
    have hstep : Moves b [] (b.step e).broker [] (b.entries e) :=
      moves_step hkeyed hattended hfresh.1
    exact hstep.trans (ih (hkeyed.moves hstep) (hattended.moves hstep) hfresh.2)

end Amqp.Broker
