import Amqp.Connection.Lifecycle
import Amqp.Proofs.Gathered
import Mathlib.Data.List.Induction

/-!
# A connection closes once

A connection is closed by its caller or by a report of its peer, whichever comes first, and stays
closed. The first one decides what else is to be done: the peer is asked to close only if the caller
was first, and the close is said only if the peer was. From then on no channel is opened, and
everything that the peer reports is still passed on.
-/

namespace Amqp.Connection

/-- The connection after a run. -/
def reached (events : List Event) : Connection := (({} : Connection).run events).1

/-- What a connection does in a run. -/
def emitted (events : List Event) : List Effect := (({} : Connection).run events).2

/-- The event closes a connection that is open. -/
def Event.closes : Event → Bool
  | .issue _ .close => true
  | .noticed (.closed _) => true
  | _ => false

/-- What the peer reports with an event. -/
def Event.notice? : Event → Option Notice
  | .noticed n => some n
  | _ => none

/-- The notice is meant for whoever listens to the connection. -/
def Notice.isPassedOn : Notice → Bool
  | .closed _ => true
  | .blocked _ => true
  | .unblocked => true
  | .failed _ => false
  | .other => false

/-- The notice that an effect passes on. -/
def Effect.announced? : Effect → Option Notice
  | .announce n => some n
  | _ => none

/-- The effect asks the peer to close. -/
def Effect.asksClose : Effect → Bool
  | .ask _ .close => true
  | _ => false

/-- What is said of a close that the peer reports. -/
def closeWarning (error : Option Value) : LogEntry :=
  ⟨.warn, [.text (Dialer.mark ++ "Connection closed"), closeReason error]⟩

/-- The effect says that the peer has closed the connection. -/
def Effect.warnsOfClose : Effect → Bool
  | .log ⟨.warn, .text t :: _⟩ => t == Dialer.mark ++ "Connection closed"
  | _ => false

variable {c : Connection} {u v events : List Event} {e : Event} {f : Effect} {call : Nat}

/-! ## Steps -/

/-- A step closes the connection if its event does, and never opens it again. -/
theorem closed_step (c : Connection) (e : Event) :
    (c.step e).1.closed = (c.closed || e.closes) := by
  cases e with
  | issue call request =>
    cases request with
    | openChannel => cases h : c.closed <;> simp [step, h, Event.closes]
    | close => cases h : c.closed <;> simp [step, h, Event.closes]
  | answered call reply =>
    simp only [step, Event.closes, Bool.or_false]
    split <;> rfl
  | noticed n => cases n <;> simp [step, after, Event.closes]

/-- What is said of a notice. -/
theorem effects_noticed (c : Connection) (n : Notice) :
    (c.step (.noticed n)).2 = (c.entryOf n).map .log ++ announced n := rfl

/-- An answer of the peer ends at most a call. -/
theorem effects_answered (c : Connection) (call : Nat) (reply : Reply) :
    (c.step (.answered call reply)).2 = [] ∨
      ∃ result, (c.step (.answered call reply)).2 = [.finish call result] := by
  simp only [step]
  split
  · exact .inr ⟨_, rfl⟩
  · exact .inl rfl

/-- A notice is passed on if it is meant to be, and nothing else is. -/
theorem announced_step (c : Connection) (e : Event) :
    (c.step e).2.filterMap Effect.announced? = e.notice?.toList.filter Notice.isPassedOn := by
  cases e with
  | issue call request => cases request <;> cases h : c.closed <;> simp [step, h, Effect.announced?,
      Event.notice?]
  | answered call reply =>
    rcases effects_answered c call reply with hnone | ⟨result, hone⟩
    · rw [hnone]
      rfl
    · rw [hone]
      rfl
  | noticed n =>
    have hlogs (entries : List LogEntry) :
        (entries.map Effect.log).filterMap Effect.announced? = [] :=
      List.filterMap_eq_nil_iff.mpr fun f hf => by
        obtain ⟨entry, _, rfl⟩ := List.mem_map.mp hf
        rfl
    rw [effects_noticed, List.filterMap_append, hlogs, List.nil_append]
    cases n <;> rfl

/-- The peer is asked to close by the caller's close of an open connection, and by nothing else. -/
theorem asksClose_step (c : Connection) (e : Event) :
    (c.step e).2.filter Effect.asksClose =
      match e with
      | .issue call .close => if c.closed then [] else [.ask call .close]
      | _ => [] := by
  cases e with
  | issue call request => cases request <;> cases h : c.closed <;> simp [step, h, Effect.asksClose]
  | answered call reply =>
    rcases effects_answered c call reply with hnone | ⟨result, hone⟩
    · rw [hnone]
      rfl
    · rw [hone]
      rfl
  | noticed n =>
    refine List.filter_eq_nil_iff.mpr fun f hf => ?_
    rw [effects_noticed] at hf
    rcases List.mem_append.mp hf with hf | hf
    · obtain ⟨entry, _, rfl⟩ := List.mem_map.mp hf
      exact Bool.false_ne_true
    · cases n with
      | closed | blocked | unblocked =>
        obtain rfl := List.mem_singleton.mp hf
        exact Bool.false_ne_true
      | failed | other => cases hf

/-- A close is said when the peer reports it of an open connection, and not otherwise. -/
theorem warnsOfClose_step (c : Connection) (e : Event) :
    (c.step e).2.filter Effect.warnsOfClose =
      match e with
      | .noticed (.closed error) => if c.closed then [] else [.log (closeWarning error)]
      | _ => [] := by
  cases e with
  | issue call request => cases request <;> cases h : c.closed <;>
      simp [step, h, Effect.warnsOfClose]
  | answered call reply =>
    rcases effects_answered c call reply with hnone | ⟨result, hone⟩
    · rw [hnone]
      rfl
    · rw [hone]
      rfl
  | noticed n =>
    rw [effects_noticed]
    cases n with
    | closed error =>
      cases h : c.closed with
      | true => simp [entryOf, h, announced, Effect.warnsOfClose]
      | false => simp [entryOf, h, announced, Effect.warnsOfClose, closeWarning]
    | failed error => cases h : error.isGiven <;> simp [entryOf, h, announced, Effect.warnsOfClose]
    | blocked reason =>
      simp [entryOf, announced, Effect.warnsOfClose]
    | unblocked => simp [entryOf, announced, Effect.warnsOfClose, LogEntry.say]
    | other => rfl

/-! ## Runs -/

theorem run_eq_played (c : Connection) (events : List Event) :
    c.run events = played step c events := by
  induction events generalizing c with
  | nil => rfl
  | cons e events ih =>
    simp only [run, ih]
    rfl

theorem reached_concat (u : List Event) (e : Event) :
    reached (u ++ [e]) = ((reached u).step e).1 := by
  rw [reached, run_eq_played, played_concat, ← run_eq_played]
  rfl

theorem emitted_concat (u : List Event) (e : Event) :
    emitted (u ++ [e]) = emitted u ++ ((reached u).step e).2 := by
  rw [emitted, run_eq_played, played_concat, ← run_eq_played]
  rfl

theorem closed_run (c : Connection) (events : List Event) :
    (c.run events).1.closed = (c.closed || events.any Event.closes) := by
  induction events generalizing c with
  | nil => exact (Bool.or_false _).symm
  | cons e events ih =>
    have hrun : (c.run (e :: events)).1 = ((c.step e).1.run events).1 := rfl
    rw [hrun, ih, closed_step, List.any_cons, Bool.or_assoc]

/-- A connection is closed after a run exactly if one of the events closes it. -/
theorem closed_reached (events : List Event) :
    (reached events).closed = events.any Event.closes := closed_run {} events

/-- Something that only an event does that closes an open connection, and only once. -/
structure Closing (p : Effect → Bool) : Prop where
  step : ∀ c e, (Connection.step c e).2.filter p = [] ∨
    c.closed = false ∧ e.closes = true ∧ ∃ f, (Connection.step c e).2.filter p = [f]

theorem closing_asksClose : Closing Effect.asksClose := by
  refine ⟨fun c e => ?_⟩
  rw [asksClose_step]
  split
  · rename_i call
    cases h : c.closed with
    | true => exact .inl rfl
    | false => exact .inr ⟨rfl, rfl, _, rfl⟩
  · exact .inl rfl

theorem closing_warnsOfClose : Closing Effect.warnsOfClose := by
  refine ⟨fun c e => ?_⟩
  rw [warnsOfClose_step]
  split
  · rename_i error
    cases h : c.closed with
    | true => exact .inl rfl
    | false => exact .inr ⟨rfl, rfl, _, rfl⟩
  · exact .inl rfl

namespace Closing

variable {p : Effect → Bool}

/-- It is done at most once, and not before the connection is closed. -/
theorem length_le (h : Closing p) (events : List Event) :
    ((emitted events).filter p).length ≤ (reached events).closed.toNat := by
  induction events using List.reverseRecOn with
  | nil => exact Nat.zero_le _
  | append_singleton u e ih =>
    rw [emitted_concat, List.filter_append, List.length_append, reached_concat, closed_step]
    rcases h.step (reached u) e with hnone | ⟨hopen, hcloses, f, hone⟩
    · rw [hnone, List.length_nil, Nat.add_zero]
      refine Nat.le_trans ih ?_
      cases (reached u).closed with
      | true => exact Nat.le_refl _
      | false => exact Nat.zero_le _
    · rw [hopen] at ih ⊢
      rw [hone, hcloses, Nat.le_zero.mp ih]
      exact Nat.le_refl _

/-- A connection that is closed does not do it. -/
theorem not_mem_run (h : Closing p) (hclosed : c.closed = true) (events : List Event) :
    ∀ f ∈ (c.run events).2, p f = false := by
  intro f hf
  rw [run_eq_played] at hf
  obtain ⟨u, e, _, _, hmem⟩ := mem_played.mp hf
  rw [← run_eq_played] at hmem
  rcases h.step (c.run u).1 e with hnone | ⟨hopen, _⟩
  · exact Bool.eq_false_iff.mpr (List.filter_eq_nil_iff.mp hnone f hmem)
  · rw [closed_run, hclosed, Bool.true_or] at hopen
    cases hopen

end Closing

/-- What is passed on in a run is what the peer reports, in the same order. -/
theorem announced_emitted (events : List Event) :
    (emitted events).filterMap Effect.announced? =
      (events.filterMap Event.notice?).filter Notice.isPassedOn := by
  induction events using List.reverseRecOn with
  | nil => rfl
  | append_singleton u e ih =>
    rw [emitted_concat, List.filterMap_append, List.filterMap_append, List.filter_append, ih,
      announced_step]
    cases h : e.notice? <;> simp [h]

/-- The life of a connection in a run. -/
structure ClosesOnce (events : List Event) : Prop where
  /-- It is closed exactly if its caller or its peer has closed it. -/
  closed : ∀ u v, events = u ++ v → ((reached u).closed = true ↔ ∃ e ∈ u, e.closes = true)
  /-- What is closed stays closed. -/
  absorbing : ∀ u v, events = u ++ v → (reached u).closed = true → (reached events).closed = true
  /-- The peer is asked to close at most once. -/
  askedOnce : ((emitted events).filter Effect.asksClose).length ≤ 1
  /-- It is asked when the caller closes a connection that is open. -/
  asked : ∀ u call v, events = u ++ .issue call .close :: v → (∀ e ∈ u, e.closes = false) →
    ((reached u).step (.issue call .close)).2 = [.ask call .close]
  /-- It is not asked once it has reported its own close. -/
  unasked : ∀ u error v, events = u ++ .noticed (.closed error) :: v →
    ∀ f ∈ ((reached (u ++ [.noticed (.closed error)])).run v).2, f.asksClose = false
  /-- A closed connection refuses to open a channel, without asking the peer. -/
  refused : ∀ u call v, events = u ++ .issue call .openChannel :: v →
    (reached u).closed = true →
      ((reached u).step (.issue call .openChannel)).2 = [.finish call (.failed .closed)] ∧
        ConnectionError.closed.report.name = "RMQConnectionError"
  /-- An open one asks for it. -/
  opens : ∀ u call v, events = u ++ .issue call .openChannel :: v → (reached u).closed = false →
    ((reached u).step (.issue call .openChannel)).2 = [.ask call .openChannel]
  /-- Closes, blocks and their ends are passed on as they are reported, each once, in order. -/
  passedOn : (emitted events).filterMap Effect.announced? =
    (events.filterMap Event.notice?).filter Notice.isPassedOn
  /-- A close is said at most once. -/
  warnedOnce : ((emitted events).filter Effect.warnsOfClose).length ≤ 1
  /-- It is said when the peer reports it of a connection that is open. -/
  warned : ∀ u error v, events = u ++ .noticed (.closed error) :: v →
    (∀ e ∈ u, e.closes = false) →
      .log (closeWarning error) ∈ ((reached u).step (.noticed (.closed error))).2
  /-- It is not said once the caller has closed the connection. -/
  silent : ∀ u call v, events = u ++ .issue call .close :: v →
    ∀ f ∈ ((reached (u ++ [.issue call .close])).run v).2, f.warnsOfClose = false

/-- **Closing.** However the calls of its caller, the answers and the reports of its peer come, a
connection closes once. -/
theorem closes_once (events : List Event) : ClosesOnce events := by
  have hclosed (u : List Event) : (reached u).closed = true ↔ ∃ e ∈ u, e.closes = true := by
    rw [closed_reached, List.any_eq_true]
  have hopen {u : List Event} (h : ∀ e ∈ u, e.closes = false) : (reached u).closed = false := by
    rw [closed_reached, List.any_eq_false]
    exact fun e he => Bool.eq_false_iff.mp (h e he)
  have hafter (u : List Event) {e : Event} (he : e.closes = true) :
      (reached (u ++ [e])).closed = true := (hclosed _).mpr ⟨e, by simp, he⟩
  have honce {p : Effect → Bool} (h : Closing p) : ((emitted events).filter p).length ≤ 1 :=
    Nat.le_trans (h.length_le events) (Bool.toNat_le _)
  refine ⟨fun u _ _ => hclosed u, ?_, honce closing_asksClose, ?_, ?_, ?_, ?_,
    announced_emitted events, honce closing_warnsOfClose, ?_, ?_⟩
  · rintro u v rfl h
    obtain ⟨e, he, hcloses⟩ := (hclosed u).mp h
    exact (hclosed _).mpr ⟨e, List.mem_append_left v he, hcloses⟩
  · intro u call v _ h
    simp only [step, hopen h, Bool.false_eq_true, if_false]
  · exact fun u error v _ => closing_asksClose.not_mem_run (hafter u rfl) v
  · intro u call v _ h
    simp only [step, h, if_true, true_and]
    rfl
  · intro u call v _ h
    simp only [step, h, Bool.false_eq_true, if_false]
  · intro u error v _ h
    rw [effects_noticed, entryOf, hopen h]
    exact List.mem_cons_self
  · exact fun u call v _ => closing_warnsOfClose.not_mem_run (hafter u rfl) v

/-- A caller that closes first is answered by a failure, after the peer has reported its own end. -/
def crossedCloses : List Event :=
  [.issue 0 .openChannel, .issue 1 .close, .noticed (.closed none), .answered 1 (.threw .null),
    .issue 2 .close]

example : (emitted crossedCloses).filter Effect.asksClose = [.ask 1 .close] ∧
    (emitted crossedCloses).filter Effect.warnsOfClose = [] :=
  ⟨rfl, rfl⟩

end Amqp.Connection
