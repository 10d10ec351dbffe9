import Amqp.Proofs.Channel.Step
import Mathlib.Data.List.Nodup

/-!
# Runs of a channel

A run is any list of events, from a channel that has just been opened. Calls are known by the
numbers their callers give them, so a run is `Numbered` if no number is given twice; then the number
of a call in flight tells which call it is. What holds of a new channel and is kept by every step
holds after every run, and what the calls of a step have to do with the calls before is one fact,
`calls_step`.
-/

namespace Amqp.Channel

/-- The channel after a run. -/
def reached (id : String) (events : List Event) : Machine := ((opened id).run events).1

/-- The number under which an event issues a request. -/
def Event.issued? : Event → Option Nat
  | .issue call _ => some call
  | _ => none

/-- No two requests of a run go under one number. -/
def Numbered (events : List Event) : Prop := (events.filterMap Event.issued?).Nodup

instance (events : List Event) : Decidable (Numbered events) :=
  inferInstanceAs (Decidable (events.filterMap Event.issued?).Nodup)

namespace Machine

/-- A run in two parts is the second part, run from where the first one ends. -/
theorem run_append (m : Machine) (xs ys : List Event) :
    m.run (xs ++ ys) =
      (((m.run xs).1.run ys).1, (m.run xs).2 ++ ((m.run xs).1.run ys).2) := by
  induction xs generalizing m with
  | nil => simp [run]
  | cons e xs ih => simp [run, ih]

theorem run_cons_fst (m : Machine) (e : Event) (events : List Event) :
    (m.run (e :: events)).1 = ((m.step e).1.run events).1 := rfl

theorem run_append_fst (m : Machine) (xs ys : List Event) :
    (m.run (xs ++ ys)).1 = ((m.run xs).1.run ys).1 := by
  rw [run_append]

/-- The last event of a run is one step. -/
theorem run_concat_fst (m : Machine) (xs : List Event) (e : Event) :
    (m.run (xs ++ [e])).1 = ((m.run xs).1.step e).1 := by
  rw [run_append]
  rfl

/-- The calls in flight once there is one more. -/
theorem mem_calls_push {m : Machine} {c c' : Call} :
    c' ∈ (m.push c).calls ↔ c' ∈ m.calls ∨ c' = c := by
  simp

/-- The calls in flight once one of them is decided. -/
theorem mem_calls_decided {m : Machine} {c c' : Call} {v : Verdict} :
    c' ∈ (m.decided c v).calls ↔
      (c' ∈ m.calls ∧ c'.id ≠ c.id) ∨ c' = { c with phase := .decided v } := by
  simp [decided]

/-- The calls in flight once one of them is over. -/
theorem mem_calls_drop {m : Machine} {c : Call} {call : Nat} :
    c ∈ (m.drop call).calls ↔ c ∈ m.calls ∧ c.id ≠ call := by
  simp

/-- One more call does not hide the others. -/
theorem call?_push_of_ne {m : Machine} {c : Call} {call : Nat} (h : c.id ≠ call) :
    (m.push c).call? call = m.call? call := by
  simp [call?, List.find?_append, h]

/-- The end of one call does not touch the others. -/
theorem call?_drop_of_ne {m : Machine} {call call' : Nat} (h : call' ≠ call) :
    (m.drop call').call? call = m.call? call := by
  simp only [call?, calls_drop, List.find?_filter]
  congr 1
  funext c
  by_cases hc : c.id = call
  · simp [hc, Ne.symm h]
  · simp [hc]

/-- The decision about one call does not touch the others. -/
theorem call?_decided_of_ne {m : Machine} {c : Call} {v : Verdict} {call : Nat} (h : c.id ≠ call) :
    (m.decided c v).call? call = m.call? call := by
  have hpush := call?_push_of_ne (m := m.drop c.id) (c := { c with phase := .decided v }) h
  rw [decided, hpush, call?_drop_of_ne h]

@[simp] theorem call?_withChannel (m : Machine) (c : Channel) (call : Nat) :
    (m.withChannel c).call? call = m.call? call := rfl

/-- An event that is not about a call leaves it as it is. -/
theorem call?_step_of_ne {m : Machine} {e : Event} {call : Nat} (h : e.call? ≠ some call) :
    (m.step e).1.call? call = m.call? call := by
  have hchange := step_transition m e
  generalize (m.step e).1 = m' at hchange
  have hne {call' : Nat} (he : e.call? = some call') : call' ≠ call := by
    rintro rfl
    exact h he
  cases hchange with
  | idle | turned | arrived | settledAlone | lost => rfl
  | claimed | passedOn => exact call?_push_of_ne (hne rfl)
  | closing | aborted =>
    rw [call?_withChannel]
    exact call?_push_of_ne (hne rfl)
  | accepted =>
    rw [call?_withChannel]
    exact call?_decided_of_ne (hne rfl)
  | refused => exact call?_decided_of_ne (hne rfl)
  | answered | concluded => exact call?_drop_of_ne (hne rfl)
  | closeFailed | closeDone | restored =>
    rw [call?_drop_of_ne (hne rfl), call?_withChannel]

/-- What a step makes of the calls in flight: nothing, one more, one less, or one decided. -/
theorem calls_step (m : Machine) (e : Event) :
    (m.step e).1.calls = m.calls ∨
    (∃ c : Call, e.issued? = some c.id ∧ (m.step e).1.calls = m.calls ++ [c]) ∨
    (∃ c, m.call? c.id = some c ∧ (m.step e).1.calls = (m.drop c.id).calls) ∨
    ∃ c v, m.call? c.id = some c ∧ (m.step e).1.calls = (m.decided c v).calls := by
  have h := step_transition m e
  generalize (m.step e).1 = m' at h
  cases h with
  | idle | turned | arrived | settledAlone | lost => exact .inl rfl
  | claimed | passedOn | closing | aborted => exact .inr (.inl ⟨_, rfl, rfl⟩)
  | closeFailed hcall | closeDone hcall | answered hcall | restored hcall | concluded hcall =>
    exact .inr (.inr (.inl ⟨_, hcall, rfl⟩))
  | accepted hcall | refused hcall => exact .inr (.inr (.inr ⟨_, _, hcall, rfl⟩))

end Machine

variable {id : String} {before events : List Event} {m : Machine}

@[simp] theorem reached_nil (id : String) : reached id [] = opened id := rfl

theorem reached_append (id : String) (xs ys : List Event) :
    reached id (xs ++ ys) = ((reached id xs).run ys).1 := by
  rw [reached, Machine.run_append]
  rfl

theorem reached_concat (id : String) (xs : List Event) (e : Event) :
    reached id (xs ++ [e]) = ((reached id xs).step e).1 :=
  Machine.run_concat_fst _ xs e

/-- What every step of a run keeps holds to the end of the run. -/
theorem reached_keeps {P : Machine → Prop} (h : P (reached id before)) (rest : List Event)
    (hstep : ∀ u e v, rest = u ++ e :: v → P (reached id (before ++ u)) →
      P ((reached id (before ++ u)).step e).1) :
    P (reached id (before ++ rest)) := by
  induction rest generalizing before with
  | nil => simpa using h
  | cons e rest ih =>
    have hnext : P (reached id (before ++ [e])) := by
      rw [reached_concat]
      simpa using hstep [] e rest rfl (by simpa using h)
    have hrest : P (reached id ((before ++ [e]) ++ rest)) := by
      apply ih hnext
      intro u e' v he hu
      have hu' : before ++ [e] ++ u = before ++ (e :: u) := by simp
      rw [hu'] at hu ⊢
      exact hstep (e :: u) e' v (by rw [he]; rfl) hu
    simpa using hrest

/-- What holds of a new channel and is kept by every step of a run holds after the run. -/
theorem reached_invariant {P : Machine → Prop} (h : P (opened id)) (events : List Event)
    (hstep : ∀ u e v, events = u ++ e :: v → P (reached id u) → P ((reached id u).step e).1) :
    P (reached id events) := by
  have hend : P (reached id ([] ++ events)) := by
    apply reached_keeps (by simpa only [reached_nil] using h)
    simpa only [List.nil_append] using hstep
  simpa only [List.nil_append] using hend

/-- If something holds at one point of a run and no more at a later one, one step between them
ends it. -/
theorem reached_ends {P : Machine → Prop} (h : P (reached id before)) {rest : List Event}
    (hend : ¬P (reached id (before ++ rest))) :
    ∃ u e v, rest = u ++ e :: v ∧ P (reached id (before ++ u)) ∧
      ¬P ((reached id (before ++ u)).step e).1 := by
  by_contra hnone
  refine hend (reached_keeps h rest ?_)
  intro u e v he hu
  by_contra hnot
  exact hnone ⟨u, e, v, he, hu, hnot⟩

namespace Numbered

/-- A part of a run gives no number twice either. -/
theorem of_append_left {xs ys : List Event} (h : Numbered (xs ++ ys)) : Numbered xs := by
  rw [Numbered, List.filterMap_append] at h
  exact h.of_append_left

/-- A number that is given later has not been given yet. -/
theorem notMem_of_issued {xs ys : List Event} {e : Event} {call : Nat}
    (h : Numbered (xs ++ e :: ys)) (he : e.issued? = some call) :
    call ∉ xs.filterMap Event.issued? := by
  rw [Numbered, List.filterMap_append] at h
  intro hmem
  refine (List.disjoint_of_nodup_append h) hmem ?_
  simp [he]

/-- A number that was given is not given again. -/
theorem notMem_after {xs ys : List Event} {e : Event} {call : Nat} (h : Numbered (xs ++ e :: ys))
    (he : e.issued? = some call) : call ∉ ys.filterMap Event.issued? := by
  rw [Numbered, List.filterMap_append, List.filterMap_cons, he] at h
  exact (List.nodup_cons.mp h.of_append_right).1

end Numbered

/-- Every call in flight was issued in the run. -/
theorem issued_of_mem_calls {c : Call} (hc : c ∈ (reached id events).calls) :
    c.id ∈ events.filterMap Event.issued? := by
  have hstart : ∀ c ∈ (opened id).calls, c.id ∈ events.filterMap Event.issued? := by
    intro c hc
    cases hc
  refine reached_invariant (P := fun m => ∀ c ∈ m.calls, c.id ∈ events.filterMap Event.issued?)
    hstart events ?_ c hc
  intro u e v he hu c hc
  rcases Machine.calls_step (reached id u) e with h | ⟨c', hc', h⟩ | ⟨c', _, h⟩ |
    ⟨c', w, hcall, h⟩
  · exact hu c (h ▸ hc)
  · rw [h, List.mem_append, List.mem_singleton] at hc
    rcases hc with hc | rfl
    · exact hu c hc
    · rw [he, List.mem_filterMap]
      exact ⟨e, by simp, hc'⟩
  · rw [h, Machine.calls_drop, List.mem_filter] at hc
    exact hu c hc.1
  · rw [h, Machine.mem_calls_decided] at hc
    rcases hc with hc | rfl
    · exact hu c hc.1
    · exact hu c' (Machine.mem_of_call? hcall).1

/-- A number that is given later is that of no call in flight before. -/
theorem Numbered.call?_eq_none {u x y : List Event} {e : Event} {call : Nat}
    (hnumbered : Numbered (u ++ x ++ e :: y)) (he : e.issued? = some call) :
    (reached id u).call? call = none := by
  cases hcall : (reached id u).call? call with
  | none => rfl
  | some c =>
    obtain ⟨hc, rfl⟩ := Machine.mem_of_call? hcall
    refine absurd ?_ (hnumbered.notMem_of_issued he)
    rw [List.filterMap_append]
    exact List.mem_append_left _ (issued_of_mem_calls hc)

/-- No two calls in flight go under one number. -/
def Machine.UniqueIds (m : Machine) : Prop := (m.calls.map (·.id)).Nodup

/-- The request of an event goes under a number that no call in flight has. -/
def Event.NewFor (e : Event) (m : Machine) : Prop :=
  ∀ call, e.issued? = some call → ∀ c ∈ m.calls, c.id ≠ call

/-- In a numbered run, each request comes under a new number. -/
theorem Numbered.newFor {xs ys : List Event} {e : Event} (h : Numbered (xs ++ e :: ys)) :
    e.NewFor (reached id xs) := by
  rintro call he c hc rfl
  exact h.notMem_of_issued he (issued_of_mem_calls hc)

namespace Machine

/-- A step under a new number keeps the calls apart. -/
theorem UniqueIds.step {e : Event} (h : m.UniqueIds) (hnew : e.NewFor m) :
    (m.step e).1.UniqueIds := by
  unfold UniqueIds at h ⊢
  have hdrop (call : Nat) : ((m.drop call).calls.map (·.id)).Nodup :=
    (List.filter_sublist.map _).nodup h
  rcases calls_step m e with heq | ⟨c, hc, heq⟩ | ⟨c, _, heq⟩ | ⟨c, v, _, heq⟩
  · rw [heq]
    exact h
  · rw [heq, List.map_append, List.nodup_append]
    refine ⟨h, List.nodup_singleton _, ?_⟩
    intro a ha b hb
    obtain ⟨c', hc', rfl⟩ := List.mem_map.mp ha
    rw [List.map_singleton, List.mem_singleton] at hb
    rw [hb]
    exact hnew c.id hc c' hc'
  · rw [heq]
    exact hdrop c.id
  · rw [heq, decided, calls_push, List.map_append, List.nodup_append]
    refine ⟨hdrop c.id, List.nodup_singleton _, ?_⟩
    intro a ha b hb
    obtain ⟨c', hc', rfl⟩ := List.mem_map.mp ha
    rw [List.map_singleton, List.mem_singleton] at hb
    rw [hb]
    exact (mem_calls_drop.mp hc').2

/-- Calls in flight under one number are one call. -/
theorem UniqueIds.eq {c c' : Call} (h : m.UniqueIds) (hc : c ∈ m.calls) (hc' : c' ∈ m.calls)
    (hid : c.id = c'.id) : c = c' :=
  List.inj_on_of_nodup_map h hc hc' hid

/-- The call that is found under a number is the one that is in flight under it. -/
theorem UniqueIds.call?_eq_some_iff {c : Call} {call : Nat} (h : m.UniqueIds) :
    m.call? call = some c ↔ c ∈ m.calls ∧ c.id = call := by
  refine ⟨mem_of_call?, ?_⟩
  rintro ⟨hc, rfl⟩
  cases hfound : m.call? c.id with
  | none =>
    have hnone := List.find?_eq_none.mp hfound c hc
    simp at hnone
  | some c' =>
    obtain ⟨hc', hid⟩ := mem_of_call? hfound
    rw [h.eq hc' hc hid]

end Machine

/-- In a numbered run no two calls in flight go under one number. -/
theorem Numbered.uniqueIds (h : Numbered events) : (reached id events).UniqueIds := by
  have hstart : (opened id).UniqueIds := List.nodup_nil
  refine reached_invariant hstart events ?_
  intro u e v he hu
  have hnew : Numbered (u ++ e :: v) := he ▸ h
  exact hu.step hnew.newFor

end Amqp.Channel
