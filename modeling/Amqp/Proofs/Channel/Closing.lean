import Amqp.Proofs.Channel.Run
import Mathlib.Data.List.Induction

/-!
# When a channel is closed

A channel is closed by an abort, by a close that succeeds, and by a report of the transport that
comes while no close is being carried out. It stays closed, and a closed channel keeps no ledger.
The main statement says exactly when a report is not lost: a channel is open after a run if and only
if nobody aborted it, no close succeeded, and every report fell into a close that failed in the end.
-/

namespace Amqp.Channel

namespace Machine

variable {m : Machine}

/-- The call is a close that the transport has not answered. -/
def IsClosing (m : Machine) (call : Nat) : Prop :=
  ∃ c wasOpen, m.call? call = some c ∧ c.request.isClose = true ∧ c.phase = .asked wasOpen

/-- Some close is in flight. -/
def CloseInFlight (m : Machine) : Prop := ∃ c ∈ m.calls, c.request.isClose = true

instance (m : Machine) : Decidable m.CloseInFlight :=
  inferInstanceAs (Decidable (∃ c ∈ m.calls, c.request.isClose = true))

/-- The events that close a channel. -/
def Closes (m : Machine) : Event → Prop
  | .issue _ (.abort _) => True
  | .answered call (.replied _) => m.IsClosing call
  | .lost _ => m.channel.closing = false
  | _ => False

/-- A channel is closed after an event that closes it. -/
theorem isOpen_step_of_closes {e : Event} (h : m.Closes e) :
    (m.step e).1.channel.isOpen = false := by
  cases e with
  | issue call r =>
    cases r with
    | abort params => rfl
    | _ => exact h.elim
  | answered call o =>
    cases o with
    | threw thrown => exact h.elim
    | replied reply =>
      obtain ⟨c, wasOpen, hcall, hclose, hphase⟩ := h
      cases hrequest : c.request with
      | close params =>
        simp only [step, hcall, answer, hphase, hrequest, answerClose, channel_drop,
          channel_withChannel, Channel.markClosed]
      | _ => simp [hrequest, Request.isClose] at hclose
  | lost error =>
    have hclosing : m.channel.closing = false := h
    cases hopen : m.channel.isOpen <;>
      simp [step, Channel.lost, hopen, hclosing, Channel.markClosed]
  | _ => exact h.elim

/-- No other event closes a channel, and none opens it again. -/
theorem isOpen_step_of_not_closes {e : Event} (h : ¬m.Closes e) :
    (m.step e).1.channel.isOpen = m.channel.isOpen := by
  have hchange := step_transition m e
  generalize (m.step e).1 = m' at hchange
  cases hchange with
  | aborted => exact absurd trivial h
  | closeDone hcall hclose hphase => exact absurd ⟨_, _, hcall, hclose, hphase⟩ h
  | lost hopen hclosing => exact absurd hclosing h
  | accepted => rw [channel_withChannel, isOpen_release]
  | _ => rfl

/-- A channel is open after a step exactly if it was before and the event does not close it. -/
theorem isOpen_step_iff {e : Event} :
    (m.step e).1.channel.isOpen = true ↔ m.channel.isOpen = true ∧ ¬m.Closes e := by
  by_cases h : m.Closes e
  · simp [isOpen_step_of_closes h, h]
  · simp [isOpen_step_of_not_closes h, h]

/-- A closed channel keeps no ledger. -/
def Shut (m : Machine) : Prop := m.channel.isOpen = false → m.channel.pending = []

/-- A step puts nothing on the ledger of a closed channel. -/
theorem Shut.step (h : m.Shut) (e : Event) : (m.step e).1.Shut := by
  have hchange := step_transition m e
  generalize (m.step e).1 = m' at hchange
  cases hchange with
  | arrived hopen =>
    intro hclosed
    exact nomatch hopen.symm.trans hclosed
  | accepted =>
    intro hclosed
    rw [channel_withChannel, isOpen_release] at hclosed
    rw [channel_withChannel, pending_release, h hclosed]
    cases h : Value.isTruthy _ <;> rfl
  | aborted | closeDone | lost => exact fun _ => rfl
  | _ => exact h

/-- A close that is asked for is being carried out. -/
theorem closing_step_of_close (m : Machine) (call : Nat) (params : Value) :
    (m.step (.issue call (.close params))).1.channel.closing = true := rfl

/-- The answer to a close ends what is being carried out, even if another close is in flight. -/
theorem closing_step_of_answered {call : Nat} (h : m.IsClosing call) (o : Outcome) :
    (m.step (.answered call o)).1.channel.closing = false := by
  obtain ⟨c, wasOpen, hcall, hclose, hphase⟩ := h
  cases hrequest : c.request with
  | close params =>
    cases o with
    | replied reply =>
      simp only [step, hcall, answer, hphase, hrequest, answerClose, channel_drop,
        channel_withChannel, Channel.markClosed]
    | threw thrown =>
      simp only [step, hcall, answer, hphase, hrequest, answerClose, fail_fst, channel_drop,
        channel_withChannel]
  | _ => simp [hrequest, Request.isClose] at hclose

/-- No other event has to do with a close being carried out. -/
theorem closing_step_of_other {e : Event} (hclose : ∀ call params, e ≠ .issue call (.close params))
    (hanswer : ∀ call o, e = .answered call o → ¬m.IsClosing call) :
    (m.step e).1.channel.closing = m.channel.closing := by
  have hchange := step_transition m e
  generalize (m.step e).1 = m' at hchange
  cases hchange with
  | closing => exact absurd rfl (hclose _ _)
  | closeFailed hcall hrequest hphase | closeDone hcall hrequest hphase =>
    exact absurd ⟨_, _, hcall, hrequest, hphase⟩ (hanswer _ _ rfl)
  | accepted => rw [channel_withChannel, closing_release]
  | _ => rfl

/-- A close stays in flight until the transport answers it. -/
theorem IsClosing.step {e : Event} {call : Nat} (h : m.IsClosing call) (hnew : e.NewFor m)
    (hanswer : ∀ o, e ≠ .answered call o) : (m.step e).1.IsClosing call := by
  obtain ⟨c, wasOpen, hcall, hclose, hphase⟩ := h
  refine ⟨c, wasOpen, ?_, hclose, hphase⟩
  by_cases he : e.call? = some call
  · cases e with
    | issue call' r =>
      obtain rfl : call' = call := Option.some.inj he
      exact absurd (mem_of_call? hcall).2 (hnew call' rfl c (mem_of_call? hcall).1)
    | answered call' o =>
      obtain rfl : call' = call := Option.some.inj he
      exact absurd rfl (hanswer o)
    | heard call' =>
      obtain rfl : call' = call := Option.some.inj he
      simp only [Machine.step, hcall, hear, hphase]
    | _ => cases he
  · rw [call?_step_of_ne he, hcall]

/-- A call for anything but a settlement waits for the transport's answer. -/
def AsksOnly (m : Machine) : Prop :=
  ∀ c ∈ m.calls, c.request.delivery? = none → ∃ wasOpen, c.phase = .asked wasOpen

/-- Only settlements are decided before they are over. -/
theorem AsksOnly.step (h : m.AsksOnly) (e : Event) : (m.step e).1.AsksOnly := by
  have hchange := step_transition m e
  generalize (m.step e).1 = m' at hchange
  have hdrop (call : Nat) : (m.drop call).AsksOnly :=
    fun c hc => h c (mem_calls_drop.mp hc).1
  have hpush {m : Machine} (h : m.AsksOnly) {c : Call}
      (hc : c.request.delivery? = none → ∃ wasOpen, c.phase = .asked wasOpen) :
      (m.push c).AsksOnly := by
    intro c' hc'
    rcases List.mem_append.mp hc' with hc' | hc'
    · exact h c' hc'
    · obtain rfl := List.mem_singleton.mp hc'
      exact hc
  cases hchange with
  | idle | turned | arrived | settledAlone | lost => exact h
  | claimed => exact hpush h (fun hnone => nomatch hnone)
  | passedOn | closing | aborted => exact hpush h (fun _ => ⟨_, rfl⟩)
  | accepted _ hrequest | refused _ hrequest =>
    exact hpush (hdrop _)
      (fun hnone => nomatch (Request.delivery?_of_settle hrequest).symm.trans hnone)
  | closeFailed | closeDone | answered | restored | concluded => exact hdrop _

/-- While a close is being carried out, some close is in flight. -/
def ClosingKnown (m : Machine) : Prop := m.channel.closing = true → m.CloseInFlight

/-- Only the answer to a close ends one, and then none is being carried out. -/
theorem ClosingKnown.step (h : m.ClosingKnown) (hunique : m.UniqueIds) (e : Event) :
    (m.step e).1.ClosingKnown := by
  have hother {c : Call} (hcall : m.call? c.id = some c) (hc : c.request.isClose = false)
      (hclosing : m.channel.closing = true) :
      ∃ c' ∈ m.calls, c'.request.isClose = true ∧ c'.id ≠ c.id := by
    obtain ⟨c', hc', hclose⟩ := h hclosing
    refine ⟨c', hc', hclose, fun hid => ?_⟩
    rw [hunique.eq hc' (mem_of_call? hcall).1 hid, hc] at hclose
    exact nomatch hclose
  have hchange := step_transition m e
  generalize (m.step e).1 = m' at hchange
  cases hchange with
  | idle | turned | arrived | settledAlone | lost => exact h
  | claimed | passedOn | aborted =>
    intro hclosing
    obtain ⟨c, hc, hclose⟩ := h hclosing
    exact ⟨c, List.mem_append_left _ hc, hclose⟩
  | closing => exact fun _ => ⟨_, List.mem_append_right _ (List.mem_singleton_self _), rfl⟩
  | accepted hcall hrequest =>
    intro hclosing
    rw [channel_withChannel, closing_release] at hclosing
    obtain ⟨c', hc', hclose, hne⟩ := hother hcall (Request.isClose_of_settle hrequest) hclosing
    exact ⟨c', mem_calls_decided.mpr (.inl ⟨hc', hne⟩), hclose⟩
  | refused hcall hrequest =>
    intro hclosing
    obtain ⟨c', hc', hclose, hne⟩ := hother hcall (Request.isClose_of_settle hrequest) hclosing
    exact ⟨c', mem_calls_decided.mpr (.inl ⟨hc', hne⟩), hclose⟩
  | closeFailed | closeDone => exact fun hclosing => nomatch hclosing
  | answered hcall _ hclose =>
    intro hclosing
    obtain ⟨c', hc', hclose', hne⟩ := hother hcall hclose hclosing
    exact ⟨c', mem_calls_drop.mpr ⟨hc', hne⟩, hclose'⟩
  | restored hcall hrequest | concluded hcall hrequest =>
    intro hclosing
    obtain ⟨c', hc', hclose, hne⟩ := hother hcall (Request.isClose_of_settle hrequest) hclosing
    exact ⟨c', mem_calls_drop.mpr ⟨hc', hne⟩, hclose⟩

end Machine

variable {id : String} {events : List Event}

/-- A closed channel keeps no ledger, after any run. -/
theorem reached_shut (id : String) (events : List Event) : (reached id events).Shut :=
  reached_invariant (fun _ => rfl) events fun _ e _ _ h => h.step e

/-- After any run, only settlements are decided before they are over. -/
theorem reached_asksOnly (id : String) (events : List Event) : (reached id events).AsksOnly :=
  reached_invariant (fun _ hc => nomatch hc) events fun _ e _ _ h => h.step e

/-- A channel is open after a run exactly if no event of the run closed it. -/
theorem isOpen_reached_iff :
    (reached id events).channel.isOpen = true ↔
      ∀ u e v, events = u ++ e :: v → ¬(reached id u).Closes e := by
  constructor
  · rintro hopen u e v rfl hcloses
    have hclosed : (reached id (u ++ [e])).channel.isOpen = false := by
      rw [reached_concat]
      exact Machine.isOpen_step_of_closes hcloses
    have hend : (reached id ((u ++ [e]) ++ v)).channel.isOpen = false := by
      refine reached_keeps (P := fun m => m.channel.isOpen = false) hclosed v ?_
      intro x e' y _ hx
      rw [Bool.eq_false_iff, ne_eq, Machine.isOpen_step_iff, hx]
      exact fun h => nomatch h.1
    rw [List.append_assoc, List.singleton_append, hopen] at hend
    exact nomatch hend
  · intro h
    refine reached_invariant (P := fun m => m.channel.isOpen = true) rfl events ?_
    intro u e v he hu
    exact Machine.isOpen_step_iff.mpr ⟨hu, h u e v he⟩

/-- A close has been asked for, and the transport has not answered one since. -/
inductive Underway (id : String) : List Event → Prop where
  | asked (u : List Event) (call : Nat) (params : Value) :
      Underway id (u ++ [.issue call (.close params)])
  | kept {u : List Event} {e : Event} (h : Underway id u)
      (hanswer : ∀ call o, e = .answered call o → ¬(reached id u).IsClosing call) :
      Underway id (u ++ [e])

/-- A channel takes a close to be carried out exactly while one is under way. -/
theorem closing_reached_iff : (reached id events).channel.closing = true ↔ Underway id events := by
  constructor
  · induction events using List.reverseRecOn with
    | nil => exact fun h => nomatch h
    | append_singleton u e ih =>
      intro h
      rw [reached_concat] at h
      by_cases hanswer : ∀ call o, e = .answered call o → ¬(reached id u).IsClosing call
      · by_cases hclose : ∀ call params, e ≠ .issue call (.close params)
        · rw [Machine.closing_step_of_other hclose hanswer] at h
          exact .kept (ih h) hanswer
        · push Not at hclose
          obtain ⟨call, params, rfl⟩ := hclose
          exact .asked u call params
      · push Not at hanswer
        obtain ⟨call, o, rfl, hclosing⟩ := hanswer
        rw [Machine.closing_step_of_answered hclosing] at h
        exact nomatch h
  · intro h
    induction h with
    | asked u call params =>
      rw [reached_concat]
      exact Machine.closing_step_of_close _ call params
    | @kept u e _ hanswer ih =>
      rw [reached_concat]
      by_cases hclose : ∀ call params, e ≠ .issue call (.close params)
      · rw [Machine.closing_step_of_other hclose hanswer, ih]
      · push Not at hclose
        obtain ⟨call, params, rfl⟩ := hclose
        exact Machine.closing_step_of_close _ call params

/-- While a close is being carried out, some close is in flight. -/
theorem Numbered.closeInFlight (h : Numbered events)
    (hclosing : (reached id events).channel.closing = true) :
    (reached id events).CloseInFlight := by
  refine reached_invariant (P := Machine.ClosingKnown) (fun h => nomatch h) events ?_ hclosing
  intro u e v he hu
  have hunique : (reached id u).UniqueIds := (he ▸ h).of_append_left.uniqueIds
  exact hu.step hunique e

/-- A close that is in flight at one point of a run and not at its end is answered in between. -/
theorem Numbered.answered_of_isClosing {u v : List Event} {call : Nat} (h : Numbered (u ++ v))
    (hclosing : (reached id u).IsClosing call) (hend : ¬(reached id (u ++ v)).CloseInFlight) :
    ∃ x o y, v = x ++ .answered call o :: y ∧ (reached id (u ++ x)).IsClosing call := by
  have hnot : ¬(reached id (u ++ v)).IsClosing call := by
    rintro ⟨c, _, hcall, hclose, _⟩
    exact hend ⟨c, (Machine.mem_of_call? hcall).1, hclose⟩
  obtain ⟨x, e, y, he, hx, hstep⟩ := reached_ends (P := fun m => m.IsClosing call) hclosing hnot
  have hnumbered : Numbered (u ++ x ++ e :: y) := by
    rw [List.append_assoc, ← he]
    exact h
  by_cases hanswer : ∀ o, e ≠ .answered call o
  · exact absurd (hx.step hnumbered.newFor hanswer) hstep
  · push Not at hanswer
    obtain ⟨o, rfl⟩ := hanswer
    exact ⟨x, o, y, he, hx⟩

/-- Every report that the transport's channel is gone was swallowed: it fell into a close that was
under way and failed later, no close succeeded, and nobody aborted the channel. -/
structure Swallowed (id : String) (events : List Event) : Prop where
  during : ∀ u error v, events = u ++ .lost error :: v → Underway id u ∧
    ∃ call thrown, (reached id u).IsClosing call ∧ .answered call (.threw thrown) ∈ v
  failed : ∀ u call reply v, events = u ++ .answered call (.replied reply) :: v →
    ¬(reached id u).IsClosing call
  kept : ∀ call params, .issue call (.abort params) ∉ events

/-- A report that does not close the channel falls into a close that is under way. -/
theorem Numbered.isClosing_of_lost {u : List Event} {error : Option Value} (h : Numbered u)
    (hlost : ¬(reached id u).Closes (.lost error)) :
    Underway id u ∧ ∃ call, (reached id u).IsClosing call := by
  have hclosing : (reached id u).channel.closing = true := by
    simpa only [Machine.Closes, Bool.not_eq_false] using hlost
  obtain ⟨c, hc, hclose⟩ := h.closeInFlight hclosing
  obtain ⟨wasOpen, hphase⟩ := reached_asksOnly id u c hc (Request.delivery?_of_isClose hclose)
  exact ⟨closing_reached_iff.mp hclosing, c.id, c, wasOpen,
    h.uniqueIds.call?_eq_some_iff.mpr ⟨hc, rfl⟩, hclose, hphase⟩

/-- If no event closed the channel and no close is left in flight, all reports were swallowed. -/
theorem Numbered.swallowed (h : Numbered events) (hquiet : ¬(reached id events).CloseInFlight)
    (hnone : ∀ u e v, events = u ++ e :: v → ¬(reached id u).Closes e) : Swallowed id events where
  during := by
    rintro u error v rfl
    obtain ⟨hunderway, call, hcall⟩ := h.of_append_left.isClosing_of_lost (hnone u _ v rfl)
    refine ⟨hunderway, call, ?_⟩
    obtain ⟨x, o, y, hv, hx⟩ := h.answered_of_isClosing hcall hquiet
    cases x with
    | nil => exact nomatch (List.cons.inj hv).1
    | cons e x =>
      obtain ⟨rfl, rfl⟩ := List.cons.inj hv
      cases o with
      | replied reply =>
        refine absurd hx (hnone _ (.answered call (.replied reply)) y ?_)
        simp
      | threw thrown => exact ⟨thrown, hcall, by simp⟩
  failed u call reply v he := hnone u _ v he
  kept call params hmem := by
    obtain ⟨u, v, he⟩ := List.append_of_mem hmem
    exact hnone u _ v he trivial

/-- If all reports were swallowed, no event closed the channel. -/
theorem Swallowed.not_closes (h : Swallowed id events) {u v : List Event} {e : Event}
    (he : events = u ++ e :: v) : ¬(reached id u).Closes e := by
  intro hcloses
  cases e with
  | issue call r =>
    cases r with
    | abort params => exact h.kept call params (by rw [he]; simp)
    | _ => exact hcloses
  | answered call o =>
    cases o with
    | replied reply => exact h.failed u call reply v he hcloses
    | threw thrown => exact hcloses
  | lost error =>
    have hclosing := closing_reached_iff.mpr (h.during u error v he).1
    exact nomatch hclosing.symm.trans hcloses
  | _ => exact hcloses

/-- After a run without a close in flight at its end, the channel is closed, with nothing left to
settle, unless every report of the transport was swallowed by a close that failed. -/
theorem closed_iff_not_swallowed (hnumbered : Numbered events)
    (hquiet : ¬(reached id events).CloseInFlight) :
    (reached id events).channel.isOpen = false ∧ (reached id events).channel.unsettledCount = 0 ↔
      ¬Swallowed id events := by
  have hcount (hclosed : (reached id events).channel.isOpen = false) :
      (reached id events).channel.unsettledCount = 0 := by
    rw [unsettledCount, reached_shut id events hclosed, List.length_nil]
  have hopen : (reached id events).channel.isOpen = true ↔ Swallowed id events := by
    rw [isOpen_reached_iff]
    exact ⟨hnumbered.swallowed hquiet, fun h _ _ _ he => h.not_closes he⟩
  rw [← hopen, Bool.not_eq_true]
  exact ⟨And.left, fun hclosed => ⟨hclosed, hcount hclosed⟩⟩

/-- A message under that tag, with nothing in it. -/
def messageOf (n : Nat) : Message where
  tag := .assigned n
  consumerTag := .text ""
  exchange := .text ""
  routingKey := .text ""
  redelivered := .bool false
  body := []
  properties := .table []

/-- A message arrives, a close is asked for, the transport's channel goes away, and the close
fails. -/
def failingClose : List Event :=
  [.arrived 0 .manual (messageOf 1), .issue 0 (.close .undefined),
    .lost (some (.error "Error" "CHANNEL_ERROR" [])),
    .answered 0 (.threw (.error "Error" "Channel closed" []))]

theorem closed_iff_not_swallowed_failingClose :
    Numbered failingClose ∧ ¬(reached "c" failingClose).CloseInFlight ∧
      Swallowed "c" failingClose ∧ (reached "c" failingClose).channel.unsettledCount = 1 := by
  have hnumbered : Numbered failingClose := by decide
  have hquiet : ¬(reached "c" failingClose).CloseInFlight := by decide
  have hopen : ¬((reached "c" failingClose).channel.isOpen = false ∧
      (reached "c" failingClose).channel.unsettledCount = 0) := by decide
  rw [closed_iff_not_swallowed hnumbered hquiet, not_not] at hopen
  exact ⟨hnumbered, hquiet, hopen, rfl⟩

/-- A report of the transport can be lost: the channel stays open when a close fails that was in
flight when the report came. -/
theorem exists_report_swallowed :
    ¬∀ (id : String) (events : List Event), Numbered events → (∃ error, .lost error ∈ events) →
      ¬(reached id events).CloseInFlight →
        (reached id events).channel.isOpen = false ∧
          (reached id events).channel.unsettledCount = 0 := by
  intro h
  have hlost : ∃ error, Event.lost error ∈ failingClose :=
    ⟨some (.error "Error" "CHANNEL_ERROR" []), by simp [failingClose]⟩
  have hclosed := h "c" failingClose (by decide) hlost (by decide)
  exact absurd hclosed.1 (by decide)

end Amqp.Channel
