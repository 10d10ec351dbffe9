import Amqp.Delivery.Machine
import Amqp.Proofs.Channel.Run
import Mathlib.Data.List.Induction

/-!
# A delivery is settled at most once

A delivery under an assigned tag, whatever its settler answers and whenever. `Transition` lists what
an event makes of it and `step_transition` proves the list complete. `Sound` ties the state to the
calls to the settler: at most one is in flight, and while it is the delivery is claimed. A delivery
that is claimed with no call in flight is `Final`, and no event changes it from then on.
-/

namespace Amqp.Delivery

/-- The call that an effect asks the settler to answer. -/
def Effect.asked? : Effect → Option Nat
  | .ask call .. => some call
  | .finish .. => none

/-- The call that an effect ends for another reason than misuse of the delivery. -/
def Effect.answered? : Effect → Option Nat
  | .ask .. => none
  | .finish _ (.failed (.misuse _)) => none
  | .finish call _ => some call

/-- The call that an effect ends with success. -/
def Effect.succeeded? : Effect → Option Nat
  | .finish call .ok => some call
  | _ => none

/-- The call of an event that asks for a settlement, and what it asks for. -/
def Event.settles? : Event → Option (Nat × Settlement)
  | .settle call order => some (call, order.settlement)
  | _ => none

/-- What comes of settlements of which only the first succeeds, for a delivery with the tag `n`. -/
def onlyFirst (n : Nat) : List (Nat × Settlement) → List Effect
  | [] => []
  | (call, s) :: later =>
    .finish call .ok :: later.map fun c => .finish c.1 (.failed (.misuse (.settled n s.state)))

namespace Machine

/-- A message that has just been handed over in a mode. -/
def received (message : Message) (mode : AckMode) : Machine := { delivery := { message, mode } }

/-- The delivery after a run, and what it has done. -/
def run (m : Machine) : List Event → Machine × List Effect
  | [] => (m, [])
  | e :: events =>
    let (m, before) := m.step e
    let (m, after) := m.run events
    (m, before ++ after)

theorem run_cons (m : Machine) (e : Event) (events : List Event) :
    m.run (e :: events) =
      (((m.step e).1.run events).1, (m.step e).2 ++ ((m.step e).1.run events).2) := rfl

/-- A run in two parts is the second part, run from where the first one ends. -/
theorem run_append (m : Machine) (xs ys : List Event) :
    m.run (xs ++ ys) =
      (((m.run xs).1.run ys).1, (m.run xs).2 ++ ((m.run xs).1.run ys).2) := by
  induction xs generalizing m with
  | nil => simp [run]
  | cons e xs ih => simp [run, ih]

/-- The last event of a run is one step. -/
theorem run_concat (m : Machine) (xs : List Event) (e : Event) :
    m.run (xs ++ [e]) =
      (((m.run xs).1.step e).1, (m.run xs).2 ++ ((m.run xs).1.step e).2) := by
  rw [run_append]
  simp [run]

/-- The failure of a call that finds the delivery with that tag settled. -/
def misuse (m : Machine) (n call : Nat) : Effect :=
  .finish call (.failed (.misuse (.settled n m.delivery.state)))

/-- The delivery, settled, with the calls in flight as they are. -/
def settled (m : Machine) (s : Settlement) : Machine := { m with delivery := m.delivery.settled s }

/-- The delivery, its settler having answered that call. -/
def heard (m : Machine) (call : Nat) : Machine := { m with inFlight := m.inFlight.erase call }

/-- Everything that an event can make of a delivery with the tag `n`. -/
inductive Transition (n : Nat) (m : Machine) : Event → Machine → List Effect → Prop
  | refused {call : Nat} {order : Order} (h : m.delivery.state ≠ .unacknowledged) :
    Transition n m (.settle call order) m [m.misuse n call]
  | alone {call : Nat} {order : Order} (hmode : m.delivery.mode = .auto)
    (h : m.delivery.state = .unacknowledged) :
    Transition n m (.settle call order) (m.settled order.settlement) [.finish call .ok]
  | claimed {call : Nat} {order : Order} (hmode : m.delivery.mode = .manual)
    (h : m.delivery.state = .unacknowledged) :
    Transition n m (.settle call order)
      { m.settled order.settlement with inFlight := call :: m.inFlight } [.ask call n order]
  | accepted {call : Nat} (h : call ∈ m.inFlight) :
    Transition n m (.answered call .accepted) (m.heard call) [.finish call .ok]
  | givenBack {call : Nat} {shown : Report} (h : call ∈ m.inFlight) :
    Transition n m (.answered call (.refused shown))
      { m.heard call with delivery := m.delivery.restore }
      [.finish call (.failed (.refused shown))]
  | broken {call : Nat} {thrown : Value} (h : call ∈ m.inFlight) :
    Transition n m (.answered call (.broke thrown)) (m.heard call) [.finish call (.threw thrown)]
  | unasked {call : Nat} {answer : SettlerAnswer} (h : call ∉ m.inFlight) :
    Transition n m (.answered call answer) m []
  | covered {s : Settlement} (h : m.delivery.state = .unacknowledged) :
    Transition n m (.covered s) (m.settled s) []
  | late {s : Settlement} (h : m.delivery.state ≠ .unacknowledged) :
    Transition n m (.covered s) m []

variable {m m' : Machine} {n : Nat} {e : Event} {effects new : List Effect}

/-- The list of transitions is complete. -/
theorem step_transition (htag : m.delivery.message.tag = .assigned n) (e : Event) :
    Transition n m e (m.step e).1 (m.step e).2 := by
  cases e with
  | settle call order =>
    by_cases hstate : m.delivery.state = .unacknowledged
    · cases hmode : m.delivery.mode with
      | auto =>
        have hclaim : m.delivery.claim order.settlement = _ :=
          claim_settled_iff.mpr ⟨⟨n, htag⟩, hmode, hstate, rfl⟩
        rw [step, hclaim]
        exact .alone hmode hstate
      | manual =>
        have hclaim : m.delivery.claim order.settlement = _ :=
          claim_asks_iff.mpr ⟨⟨htag, hmode, hstate⟩, rfl⟩
        rw [step, hclaim]
        exact .claimed hmode hstate
    · rw [step, claim_of_settled htag hstate]
      exact .refused hstate
  | answered call answer =>
    by_cases hcall : call ∈ m.inFlight
    · rw [step, if_pos (List.contains_iff_mem.mpr hcall)]
      cases answer with
      | accepted => exact .accepted hcall
      | refused shown => exact .givenBack hcall
      | broke thrown => exact .broken hcall
    · rw [step, if_neg (hcall ∘ List.contains_iff_mem.mp)]
      exact .unasked hcall
  | covered s =>
    by_cases hstate : m.delivery.state = .unacknowledged
    · rw [step, markSettled, if_pos hstate]
      exact .covered hstate
    · rw [step, markSettled, if_neg hstate]
      exact .late hstate

/-- A delivery stays the same message in the same mode. -/
theorem Transition.label (h : Transition n m e m' new) :
    m'.delivery.message = m.delivery.message ∧ m'.delivery.mode = m.delivery.mode := by
  cases h <;> exact ⟨rfl, rfl⟩

/-- A delivery that is claimed, with nobody to ask. -/
structure Final (m : Machine) : Prop where
  claimed : m.delivery.state ≠ .unacknowledged
  idle : m.inFlight = []

/-- A final delivery is never changed, and refuses every settlement. -/
theorem Final.step_eq (hfinal : m.Final) (h : Transition n m e m' new) :
    m' = m ∧ new = e.settles?.toList.map fun c => m.misuse n c.1 := by
  have hnone (call : Nat) : call ∉ m.inFlight := by simp [hfinal.idle]
  cases h with
  | refused | unasked | late => exact ⟨rfl, rfl⟩
  | alone _ hstate | claimed _ hstate | covered hstate => exact absurd hstate hfinal.claimed
  | accepted hcall | givenBack hcall | broken hcall => exact absurd hcall (hnone _)

/-- The state of a delivery and the calls to its settler, after it has had those effects. -/
structure Sound (m : Machine) (effects : List Effect) : Prop where
  /-- A delivery that waits has nobody to answer. -/
  idle : m.delivery.state = .unacknowledged → m.inFlight = []
  alone : m.inFlight.length ≤ 1
  /-- Each call is answered before the next one is made. -/
  inTurn : m.delivery.mode = .manual →
    effects.filterMap Effect.asked? = effects.filterMap Effect.answered? ++ m.inFlight
  automatic : m.delivery.mode = .auto →
    effects.filterMap Effect.asked? = [] ∧ m.inFlight = []
  once : (effects.filterMap Effect.succeeded?).length ≤ 1
  final : effects.filterMap Effect.succeeded? ≠ [] → m.Final

/-- A delivery that has just been handed over is sound. -/
theorem sound_received (message : Message) (mode : AckMode) :
    Sound (received message mode) [] where
  idle _ := rfl
  alone := Nat.zero_le 1
  inTurn _ := rfl
  automatic _ := ⟨rfl, rfl⟩
  once := Nat.zero_le 1
  final h := absurd rfl h

/-- Only a manual delivery that is claimed and has not succeeded waits for an answer. -/
theorem Sound.waiting (h : m.Sound effects) {call : Nat} (hcall : call ∈ m.inFlight) :
    m.inFlight = [call] ∧ m.delivery.state ≠ .unacknowledged ∧ m.delivery.mode = .manual ∧
      effects.filterMap Effect.succeeded? = [] := by
  have hne : m.inFlight ≠ [] := List.ne_nil_of_mem hcall
  have hone : m.inFlight.length = 1 :=
    Nat.le_antisymm h.alone (List.length_pos_of_mem hcall)
  obtain ⟨c, hc⟩ := List.length_eq_one_iff.mp hone
  obtain rfl : call = c := by simpa [hc] using hcall
  refine ⟨hc, fun hstate => hne (h.idle hstate), ?_, ?_⟩
  · cases hmode : m.delivery.mode with
    | auto => exact absurd (h.automatic hmode).2 hne
    | manual => rfl
  · exact Classical.byContradiction fun hsome => hne (h.final hsome).idle

/-- Only a delivery that has not succeeded waits to be claimed, and then nobody is asked. -/
theorem Sound.claimable (h : m.Sound effects) (hstate : m.delivery.state = .unacknowledged) :
    m.inFlight = [] ∧ effects.filterMap Effect.succeeded? = [] :=
  ⟨h.idle hstate, Classical.byContradiction fun hsome => (h.final hsome).claimed hstate⟩

/-- A settlement leaves no delivery waiting. -/
theorem settled_claimed (m : Machine) (s : Settlement) :
    (m.settled s).delivery.state ≠ .unacknowledged := by
  cases s <;> exact fun h => DeliveryState.noConfusion h

/-- A delivery that is claimed while nobody is asked is final. -/
theorem final_settled (h : m.inFlight = []) (s : Settlement) : (m.settled s).Final :=
  ⟨m.settled_claimed s, h⟩

/-- Without a success before and with none now there is none. -/
theorem not_succeeded_append (h : effects.filterMap Effect.succeeded? = []) (new : List Effect)
    (hnew : new.filterMap Effect.succeeded? = []) :
    (effects ++ new).filterMap Effect.succeeded? = [] := by
  rw [List.filterMap_append, h, hnew, List.append_nil]

/-- An event that leaves the delivery as it is and has no part in its settlement. -/
theorem Sound.append (h : m.Sound effects) (hasked : new.filterMap Effect.asked? = [])
    (hanswered : m.delivery.mode = .manual → new.filterMap Effect.answered? = [])
    (hsucceeded : new.filterMap Effect.succeeded? = []) : m.Sound (effects ++ new) where
  idle := h.idle
  alone := h.alone
  inTurn hmode := by simp [hasked, hanswered hmode, h.inTurn hmode]
  automatic hmode := by simp [hasked, h.automatic hmode]
  once := by simpa [hsucceeded] using h.once
  final := by simpa [hsucceeded] using h.final

/-- The settler answers with a failure, whatever state that leaves. -/
theorem Sound.failed (h : m.Sound effects) {call : Nat} {result : SettleResult}
    (hcall : call ∈ m.inFlight)
    (hanswered : [Effect.finish call result].filterMap Effect.answered? = [call])
    (hsucceeded : [Effect.finish call result].filterMap Effect.succeeded? = [])
    (hmode' : m'.delivery.mode = m.delivery.mode)
    (hinFlight : m'.inFlight = m.inFlight.erase call) :
    m'.Sound (effects ++ [.finish call result]) := by
  obtain ⟨hone, hstate, hmode, hnone⟩ := h.waiting hcall
  have hidle : m'.inFlight = [] := by simp [hinFlight, hone]
  have hnone' := not_succeeded_append hnone _ hsucceeded
  exact {
    idle := fun _ => hidle
    alone := by simp [hidle]
    inTurn := fun _ => by
      rw [List.filterMap_append, List.filterMap_append, h.inTurn hmode, hone, hanswered, hidle]
      simp [Effect.asked?]
    automatic := fun hauto => AckMode.noConfusion (hmode.symm.trans (hmode'.symm.trans hauto))
    once := by rw [hnone']; exact Nat.zero_le 1
    final := fun hsome => absurd hnone' hsome }

/-- Every event keeps a delivery sound. -/
theorem Sound.step (h : m.Sound effects) (htransition : Transition n m e m' new) :
    m'.Sound (effects ++ new) := by
  cases htransition with
  | refused => exact h.append rfl (fun _ => rfl) rfl
  | unasked | late => exact h.append rfl (fun _ => rfl) rfl
  | alone hmode hstate =>
    obtain ⟨hidle, hnone⟩ := h.claimable hstate
    exact {
      idle := fun _ => hidle
      alone := h.alone
      inTurn := fun hmanual => AckMode.noConfusion (hmode.symm.trans hmanual)
      automatic := fun _ => by
        rw [List.filterMap_append, (h.automatic hmode).1]
        exact ⟨rfl, hidle⟩
      once := by simp [hnone, Effect.succeeded?]
      final := fun _ => final_settled hidle _ }
  | @claimed call order hmode hstate =>
    obtain ⟨hidle, hnone⟩ := h.claimable hstate
    have hnone' := not_succeeded_append hnone [.ask call n order] rfl
    exact {
      idle := fun hwaits => absurd hwaits (m.settled_claimed _)
      alone := by simp [hidle]
      inTurn := fun _ => by simp [Effect.asked?, Effect.answered?, h.inTurn hmode, hidle]
      automatic := fun hauto => AckMode.noConfusion (hmode.symm.trans hauto)
      once := by rw [hnone']; exact Nat.zero_le 1
      final := fun hsome => absurd hnone' hsome }
  | @accepted call hcall =>
    obtain ⟨hone, hstate, hmode, hnone⟩ := h.waiting hcall
    have hidle : (m.heard call).inFlight = [] := by simp [heard, hone]
    exact {
      idle := fun _ => hidle
      alone := by simp [hidle]
      inTurn := fun _ => by simp [Effect.asked?, Effect.answered?, h.inTurn hmode, hidle, hone]
      automatic := fun hauto => AckMode.noConfusion (hmode.symm.trans hauto)
      once := by simp [hnone, Effect.succeeded?]
      final := fun _ => ⟨hstate, hidle⟩ }
  | givenBack hcall => exact h.failed hcall rfl rfl rfl rfl
  | broken hcall => exact h.failed hcall rfl rfl rfl rfl
  | covered hstate =>
    obtain ⟨hidle, hnone⟩ := h.claimable hstate
    rw [List.append_nil]
    exact { h with
      idle := fun hwaits => absurd hwaits (m.settled_claimed _)
      final := fun hsome => absurd hnone hsome }

/-- Nothing comes of a run from a final delivery but refused settlements. -/
theorem Final.run_eq (hfinal : m.Final) (htag : m.delivery.message.tag = .assigned n)
    (events : List Event) :
    m.run events = (m, (events.filterMap Event.settles?).map fun c => m.misuse n c.1) := by
  induction events with
  | nil => rfl
  | cons e events ih =>
    obtain ⟨hstays, hnew⟩ := hfinal.step_eq (step_transition htag e)
    rw [run_cons, hstays, hnew, ih, List.filterMap_cons]
    cases e.settles? <;> rfl

/-- Unless a later settlement covers it, an automatic delivery grants the first settlement. -/
theorem run_automatic (hmode : m.delivery.mode = .auto)
    (hstate : m.delivery.state = .unacknowledged) (hidle : m.inFlight = [])
    (htag : m.delivery.message.tag = .assigned n) (events : List Event)
    (halone : ∀ s, .covered s ∉ events) :
    (m.run events).2 = onlyFirst n (events.filterMap Event.settles?) := by
  have hnone (call : Nat) : call ∉ m.inFlight := by simp [hidle]
  induction events with
  | nil => rfl
  | cons e events ih =>
    have ih := ih fun s hs => halone s (List.mem_cons_of_mem e hs)
    have htransition := step_transition htag e
    generalize hm' : (m.step e).1 = m', hnew : (m.step e).2 = new at htransition
    rw [run_cons, hm', hnew]
    cases htransition with
    | refused h | late h => exact absurd hstate h
    | claimed hmanual => exact AckMode.noConfusion (hmode.symm.trans hmanual)
    | accepted hcall | givenBack hcall | broken hcall => exact absurd hcall (hnone _)
    | covered => exact absurd List.mem_cons_self (halone _)
    | unasked => exact ih
    | alone => rw [(final_settled hidle _).run_eq htag]; rfl

end Machine

/-! ## Runs -/

section Runs

variable {message : Message} {mode : AckMode} {n : Nat} {events : List Event}

open Machine (received)

/-- The delivery of a message after a run. -/
def reached (message : Message) (mode : AckMode) (events : List Event) : Machine :=
  ((received message mode).run events).1

/-- What the delivery of a message does in a run. -/
def emitted (message : Message) (mode : AckMode) (events : List Event) : List Effect :=
  ((received message mode).run events).2

theorem reached_concat (message : Message) (mode : AckMode) (events : List Event) (e : Event) :
    reached message mode (events ++ [e]) = ((reached message mode events).step e).1 := by
  rw [reached, Machine.run_concat]
  rfl

theorem emitted_concat (message : Message) (mode : AckMode) (events : List Event) (e : Event) :
    emitted message mode (events ++ [e]) =
      emitted message mode events ++ ((reached message mode events).step e).2 := by
  rw [emitted, Machine.run_concat]
  rfl

/-- A run in two parts reaches what the second part reaches from the first. -/
theorem reached_append (message : Message) (mode : AckMode) (xs ys : List Event) :
    reached message mode (xs ++ ys) = ((reached message mode xs).run ys).1 := by
  rw [reached, Machine.run_append]
  rfl

/-- A settlement of the delivery has succeeded, or one of a later delivery found it waiting. -/
def Decided (message : Message) (mode : AckMode) (events : List Event) : Prop :=
  (∃ call, .finish call .ok ∈ emitted message mode events) ∨
    ∃ before s after, events = before ++ .covered s :: after ∧
      (reached message mode before).delivery.state = .unacknowledged

/-- What is decided stays decided. -/
theorem Decided.concat (h : Decided message mode events) (e : Event) :
    Decided message mode (events ++ [e]) := by
  obtain ⟨call, hcall⟩ | ⟨before, s, after, rfl, hstate⟩ := h
  · exact .inl ⟨call, by simp [emitted_concat, hcall]⟩
  · exact .inr ⟨before, s, after ++ [e], by simp, hstate⟩

/-- A run leaves the message and its mode as they are. -/
theorem label_reached (htag : message.tag = .assigned n) (mode : AckMode) (events : List Event) :
    (reached message mode events).delivery.message = message ∧
      (reached message mode events).delivery.mode = mode := by
  induction events using List.reverseRecOn with
  | nil => exact ⟨rfl, rfl⟩
  | append_singleton events e ih =>
    have htransition := Machine.step_transition (ih.1.symm ▸ htag) e
    rw [reached_concat, htransition.label.1, htransition.label.2]
    exact ih

/-- The next step of a run is one of the transitions. -/
theorem transition_reached (htag : message.tag = .assigned n) (mode : AckMode)
    (events : List Event) (e : Event) :
    Machine.Transition n (reached message mode events) e
      (reached message mode (events ++ [e])) ((reached message mode events).step e).2 := by
  rw [reached_concat]
  exact Machine.step_transition ((label_reached htag mode events).1.symm ▸ htag) e

/-- A delivery is sound after every run. -/
theorem sound_reached (htag : message.tag = .assigned n) (mode : AckMode) (events : List Event) :
    (reached message mode events).Sound (emitted message mode events) := by
  induction events using List.reverseRecOn with
  | nil => exact Machine.sound_received message mode
  | append_singleton events e ih =>
    rw [emitted_concat]
    exact ih.step (transition_reached htag mode events e)

/-- Once a delivery is decided it is final. -/
theorem Decided.final (htag : message.tag = .assigned n) (h : Decided message mode events) :
    (reached message mode events).Final := by
  obtain ⟨call, hcall⟩ | ⟨before, s, after, rfl, hstate⟩ := h
  · refine (sound_reached htag mode events).final (List.ne_nil_of_mem (a := call) ?_)
    exact List.mem_filterMap.mpr ⟨_, hcall, rfl⟩
  · have hidle := (sound_reached htag mode before).idle hstate
    have hfinal : (reached message mode (before ++ [.covered s])).Final := by
      rw [reached_concat, Machine.step, markSettled, if_pos hstate]
      exact Machine.final_settled hidle s
    rw [List.append_cons, reached_append,
      hfinal.run_eq ((label_reached htag mode _).1.symm ▸ htag)]
    exact hfinal

/-- Every call to the settler is answered, if at all, with success or a failure. -/
def Resolves (events : List Event) : Prop := ∀ call thrown, .answered call (.broke thrown) ∉ events

/-- If the settler never breaks, a delivery is claimed only by a call in flight or for good. -/
theorem claimed_reached (htag : message.tag = .assigned n) (hresolves : Resolves events)
    (hstate : (reached message mode events).delivery.state ≠ .unacknowledged) :
    (reached message mode events).inFlight ≠ [] ∨ Decided message mode events := by
  induction events using List.reverseRecOn with
  | nil => exact absurd rfl hstate
  | append_singleton events e ih =>
    have ih := ih fun call thrown h => hresolves call thrown (List.mem_append_left [e] h)
    have htransition := transition_reached htag mode events e
    have hnew := emitted_concat message mode events e
    generalize reached message mode (events ++ [e]) = m', (Machine.step _ e).2 = new
      at htransition hstate hnew ⊢
    cases htransition with
    | refused h | late h => exact (ih h).imp_right (·.concat _)
    | unasked => exact (ih hstate).imp_right (·.concat _)
    | alone | accepted =>
      exact .inr (.inl ⟨_, hnew ▸ List.mem_append_right _ List.mem_cons_self⟩)
    | claimed => exact .inl (List.cons_ne_nil _ _)
    | givenBack => exact absurd rfl hstate
    | broken => exact absurd (List.mem_append_right _ List.mem_cons_self) (hresolves _ _)
    | covered h => exact .inr (.inr ⟨events, _, [], rfl, h⟩)

/-- How the settlements of one delivery go in a run. The tag of its message is `n`. -/
structure SettledOnce (message : Message) (n : Nat) (mode : AckMode) (events : List Event) :
    Prop where
  /-- At most one call to the settler is in flight. -/
  exclusive : (reached message mode events).inFlight.length ≤ 1
  /-- The settler is asked and answers in turn; what it is asked last may still be in flight. -/
  inTurn : mode = .manual → (emitted message mode events).filterMap Effect.asked? =
    (emitted message mode events).filterMap Effect.answered? ++
      (reached message mode events).inFlight
  /-- No call is in flight while the delivery waits to be settled. -/
  idle : (reached message mode events).delivery.state = .unacknowledged →
    (reached message mode events).inFlight = []
  /-- While a call is in flight, and once the delivery is decided, it counts as settled: another
  settlement fails for that reason, without a call to the settler, and changes nothing. -/
  refuses : (reached message mode events).inFlight ≠ [] ∨ Decided message mode events →
    (reached message mode events).delivery.state ≠ .unacknowledged ∧
      ∀ call order, (reached message mode events).step (.settle call order) =
        (reached message mode events, [.finish call (.failed (.misuse
          (.settled n (reached message mode events).delivery.state)))])
  /-- If the settler never breaks, the delivery waits at all other times. -/
  waits : Resolves events →
    ¬ ((reached message mode events).inFlight ≠ [] ∨ Decided message mode events) →
    (reached message mode events).delivery.state = .unacknowledged
  /-- At most one settlement succeeds. -/
  once : ((emitted message mode events).filterMap Effect.succeeded?).length ≤ 1
  /-- What is decided is never changed. -/
  final : Decided message mode events → ∀ more,
    (reached message mode (events ++ more)).delivery.state =
      (reached message mode events).delivery.state
  /-- Nobody is ever asked about an automatic delivery. -/
  unasked : mode = .auto → (emitted message mode events).filterMap Effect.asked? = []
  /-- Unless a later settlement covers it, the first settlement of an automatic delivery succeeds
  and all others fail. -/
  onlyFirst : mode = .auto → (∀ s, .covered s ∉ events) →
    emitted message mode events = onlyFirst n (events.filterMap Event.settles?)

/-- A delivery under an assigned tag is settled at most once, whatever its settler answers and
whenever, and however settlements of it and of later deliveries come in between. -/
theorem settled_once (htag : message.tag = .assigned n) (mode : AckMode) (events : List Event) :
    SettledOnce message n mode events := by
  have hsound := sound_reached htag mode events
  obtain ⟨hmessage, hmode⟩ := label_reached htag mode events
  have htag' : (reached message mode events).delivery.message.tag = .assigned n :=
    hmessage.symm ▸ htag
  have hclaimed : (reached message mode events).inFlight ≠ [] ∨ Decided message mode events →
      (reached message mode events).delivery.state ≠ .unacknowledged := by
    rintro (hflight | hdecided)
    · exact hflight ∘ hsound.idle
    · exact (hdecided.final htag).claimed
  exact {
    exclusive := hsound.alone
    inTurn := fun hmanual => hsound.inTurn (hmode.trans hmanual)
    idle := hsound.idle
    refuses := fun h => by
      refine ⟨hclaimed h, fun call order => ?_⟩
      rw [Machine.step, claim_of_settled htag' (hclaimed h)]
    waits := fun hresolves hnot =>
      Classical.byContradiction fun hstate => hnot (claimed_reached htag hresolves hstate)
    once := hsound.once
    final := fun h more => by rw [reached_append, (h.final htag).run_eq htag']
    unasked := fun hauto => (hsound.automatic (hmode.trans hauto)).1
    onlyFirst := fun hauto halone =>
      Machine.run_automatic hauto rfl rfl htag events halone }

/-- A negative settlement is refused by its settler, with a positive one refused while it is in
flight; the next one succeeds, and the last one comes too late. -/
def contended : List Event :=
  let accept : Order := ⟨.acknowledge, .bool false, .bool false⟩
  let reject : Order := ⟨.reject, .bool false, .bool true⟩
  [.settle 0 reject, .settle 1 accept, .answered 0 (.refused ⟨"Error", "lost", []⟩),
    .settle 2 accept, .answered 2 .accepted, .settle 3 reject]

/-- A message under an assigned tag. -/
def tagged : Message := { (default : Message) with tag := .assigned 7 }

/-- The run with contended settlements is about a message under an assigned tag. -/
theorem settled_once_contended :
    tagged.tag = .assigned 7 ∧ SettledOnce tagged 7 .manual contended ∧
      (emitted tagged .manual contended).filterMap Effect.succeeded? = [2] :=
  ⟨rfl, settled_once rfl .manual contended, rfl⟩

end Runs

end Amqp.Delivery
