import Amqp.Connection.Dialer
import Amqp.Proofs.Connection.Heartbeat
import Amqp.Proofs.Gathered
import Mathlib.Data.List.Induction

/-!
# Where attempts to connect stand

Any number of attempts run at once, and each of them depends on nothing but what has happened since
it began: it is over once the peer has answered it, it is late once its time was up before that, and
it waits otherwise. A step changes every attempt as if there were no other one.
-/

namespace Amqp

/-- Options that ask for the same are the same. -/
theorem ConnectionRequest.ofOptions_inj {o o' : ConnectionOptions} :
    ofOptions o = ofOptions o' ↔ o = o' := by
  cases o
  cases o'
  simp [ofOptions]

namespace Dialer

/-- The attempts after a run. -/
def reached (events : List Event) : Dialer := (({} : Dialer).run events).1

namespace Event

/-- The number of the attempt that a caller asks for with the event. -/
def begun? : Event → Option Nat
  | .connect id _ => some id
  | _ => none

/-- The number of the attempt that the peer answers with the event. -/
def answered? : Event → Option Nat
  | .established id => some id
  | .refused id _ => some id
  | _ => none

/-- Time passes with the event. -/
def isAdvance : Event → Bool
  | .advance _ => true
  | _ => false

/-- The time after the event. -/
def timeAfter (now : Number) : Event → Number
  | .advance milliseconds => now.add milliseconds
  | _ => now

/-- A caller gives options with nothing left open, and the peer takes a connection or refuses it. -/
def IsRegular : Event → Prop
  | .connect _ request => ∃ o, request = .ofOptions o
  | .misled .. => False
  | .broke .. => False
  | _ => True

end Event

/-- Every call has a number of its own, and everything that happens is regular. -/
structure Regular (events : List Event) : Prop where
  numbered : (events.filterMap Event.begun?).Nodup
  regular : ∀ e ∈ events, e.IsRegular

/-! ## Where an attempt stands -/

/-- The time after events that began at some time. -/
def elapse (now : Number) (events : List Event) : Number := events.foldl Event.timeAfter now

/-- The time after a run. -/
def clock (events : List Event) : Number := elapse (.ofNat 0) events

/-- With one of the events since a time, time has passed and the end of a limit was reached. -/
def isOver (due now : Number) : List Event → Bool
  | [] => false
  | e :: rest =>
    (e.isAdvance && due.le (e.timeAfter now)) || isOver due (e.timeAfter now) rest

/-- When the time of an attempt is up that begins at a time: its timer runs for the delay that the
limit stands for. -/
def limitEnd (now : Number) (o : ConnectionOptions) : Number := now.add (Timer.delay o.timeout)

/-- Where an attempt stands that began at a time, after what has happened since. -/
def phaseSince (id : Nat) (o : ConnectionOptions) (now : Number) (v : List Event) : AttemptPhase :=
  if some id ∈ v.map Event.answered? then .finished
  else if isOver (limitEnd now o) now v then .late
  else .waiting

/-- An attempt has begun after the events `u`, at an address that can be read, and the events `v`
have happened since. -/
structure Began (events : List Event) (id : Nat) (o : ConnectionOptions) (u v : List Event) :
    Prop where
  split : events = u ++ .connect id (.ofOptions o) :: v
  url : (Url.parse? o.uri).isSome = true

/-- An attempt has begun in a run and stands there at its end. -/
def Stands (events : List Event) (id : Nat) (phase : AttemptPhase) : Prop :=
  ∃ o u v, Began events id o u v ∧ phaseSince id o (clock u) v = phase

variable {d : Dialer} {a : Attempt} {e : Event} {u v w events : List Event} {id : Nat}
  {o o' : ConnectionOptions} {now : Number} {p : AttemptPhase}

theorem Regular.of_append (h : Regular (u ++ v)) : Regular u := by
  refine ⟨?_, fun e he => h.regular e (List.mem_append_left v he)⟩
  have hn := h.numbered
  rw [List.filterMap_append] at hn
  exact hn.of_append_left

theorem elapse_concat (now : Number) (u : List Event) (e : Event) :
    elapse now (u ++ [e]) = e.timeAfter (elapse now u) := by
  rw [elapse, List.foldl_append]
  rfl

theorem clock_concat (u : List Event) (e : Event) : clock (u ++ [e]) = e.timeAfter (clock u) :=
  elapse_concat _ u e

/-- The time limit is over after the last event if it was before, or if it ends with that event. -/
theorem isOver_concat (due now : Number) (v : List Event) (e : Event) :
    isOver due now (v ++ [e]) =
      (isOver due now v || (e.isAdvance && due.le (e.timeAfter (elapse now v)))) := by
  induction v generalizing now with
  | nil => simp [isOver, elapse]
  | cons x v ih =>
    rw [List.cons_append, isOver, ih, isOver, Bool.or_assoc]
    rfl

namespace Began

/-- Since an attempt began, the clock has gone on from the time it showed then. -/
theorem clock_eq (h : Began events id o u v) : clock events = elapse (clock u) v := by
  rw [h.split, clock, elapse, List.foldl_append]
  rfl

theorem append (h : Began u id o v w) (x : List Event) : Began (u ++ x) id o v (w ++ x) :=
  ⟨by rw [h.split, List.append_assoc, List.cons_append], h.url⟩

/-- An attempt begins with the last event, or it has begun before. -/
theorem concat_iff :
    Began (events ++ [e]) id o u v ↔
      (v = [] ∧ u = events ∧ e = .connect id (.ofOptions o) ∧ (Url.parse? o.uri).isSome = true) ∨
        ∃ w, v = w ++ [e] ∧ Began events id o u w := by
  constructor
  · rintro ⟨hsplit, hurl⟩
    rcases concat_eq_append_cons_iff.mp hsplit with ⟨rfl, rfl, rfl⟩ | ⟨w, rfl, rfl⟩
    · exact .inl ⟨rfl, rfl, rfl, hurl⟩
    · exact .inr ⟨w, rfl, rfl, hurl⟩
  · rintro (⟨rfl, rfl, rfl, hurl⟩ | ⟨w, rfl, h⟩)
    · exact ⟨rfl, hurl⟩
    · exact h.append [e]

/-- A call with a number of its own begins one attempt. -/
theorem unique (h : Began events id o u v) {u' v' : List Event}
    (hnumbered : (events.filterMap Event.begun?).Nodup)
    (h' : events = u' ++ .connect id (.ofOptions o') :: v') : u = u' ∧ o = o' ∧ v = v' := by
  rw [h.split] at hnumbered h'
  obtain ⟨hu, he, hv⟩ := append_cons_unique hnumbered rfl rfl h'
  exact ⟨hu, ConnectionRequest.ofOptions_inj.mp (Event.connect.inj he).2, hv⟩

end Began

/-- An answered attempt is over. -/
theorem phaseSince_of_mem (h : some id ∈ v.map Event.answered?) :
    phaseSince id o now v = .finished := if_pos h

/-- Where an attempt stands after one more event. -/
theorem phaseSince_concat (id : Nat) (o : ConnectionOptions) (now : Number) (v : List Event)
    (e : Event) : phaseSince id o now (v ++ [e]) =
      if e.answered? = some id then .finished
      else if phaseSince id o now v = .waiting ∧ e.isAdvance = true ∧
        (limitEnd now o).le (e.timeAfter (elapse now v)) = true then .late
      else phaseSince id o now v := by
  simp only [phaseSince, List.map_append, List.mem_append, List.map_cons, List.map_nil,
    List.mem_singleton, isOver_concat]
  by_cases hanswered : some id ∈ v.map Event.answered?
  · simp [hanswered]
  · by_cases he : e.answered? = some id
    · simp [he]
    · have he' : ¬some id = e.answered? := fun h => he h.symm
      by_cases hover : isOver (limitEnd now o) now v = true
      · simp [hanswered, he, he', hover]
      · simp [hanswered, he, he', hover]

/-! ## Steps -/

/-- The attempt that a caller begins at a time, after what has happened since. -/
def standing (now : Number) (id : Nat) (o : ConnectionOptions) (v : List Event) : Attempt where
  id
  limit := .number o.timeout
  due := limitEnd now o
  armed := phaseSince id o now v == .waiting
  phase := phaseSince id o now v

/-- The attempts have numbers of their own, and the timers that are set are those of the attempts
that wait. -/
structure Tidy (d : Dialer) : Prop where
  distinct : (d.attempts.map (·.id)).Nodup
  armed : ∀ a ∈ d.attempts, a.armed = (a.phase == .waiting)

/-- An attempt after an event, with the time before it. -/
def after (now : Number) (e : Event) (a : Attempt) : Attempt :=
  if e.answered? = some a.id then a.settle
  else if a.phase = .waiting ∧ e.isAdvance = true ∧ a.due.le (e.timeAfter now) = true then a.expire
  else a

/-- The attempt that begins with an event. -/
def started (now : Number) : Event → List Attempt
  | .connect id request => ((⟨now, []⟩ : Dialer).connect id request).1.attempts
  | _ => []

/-- One more event changes an attempt as if there were no other one. -/
theorem after_standing (now : Number) (id : Nat) (o : ConnectionOptions) (v : List Event)
    (e : Event) : after (elapse now v) e (standing now id o v) = standing now id o (v ++ [e]) := by
  rw [after, standing, standing, phaseSince_concat]
  by_cases hanswered : e.answered? = some id
  · rw [if_pos hanswered, if_pos hanswered]
    rfl
  · rw [if_neg hanswered, if_neg hanswered]
    by_cases hdue : phaseSince id o now v = .waiting ∧ e.isAdvance = true ∧
        (limitEnd now o).le (e.timeAfter (elapse now v)) = true
    · rw [if_pos hdue, if_pos hdue, Attempt.expire, hdue.1]
      rfl
    · rw [if_neg hdue, if_neg hdue]

theorem attempt?_eq_some_iff (hd : Tidy d) :
    d.attempt? id = some a ↔ a ∈ d.attempts ∧ a.id = id := find?_eq_some_iff_of_nodup hd.distinct

/-! ### What an answer leaves -/

/-- The attempts once the peer has answered the one with that number. -/
def answer (d : Dialer) (id : Nat) : Dialer :=
  match d.attempt? id with
  | some a => if a.phase = .finished then d else d.modify a.id Attempt.settle
  | none => d

theorem establish_fst (d : Dialer) (a : Attempt) : (d.establish a).1 =
    if a.phase = .finished then d else d.modify a.id Attempt.settle := by
  unfold establish
  split <;> rename_i h <;> simp [h]

theorem refuse_fst (d : Dialer) (a : Attempt) (thrown : Value) : (d.refuse a thrown).1 =
    if a.phase = .finished then d else d.modify a.id Attempt.settle := by
  unfold refuse
  cases h : a.phase with
  | waiting => cases describe thrown <;> rfl
  | late => cases describe thrown <;> rfl
  | finished => rfl

/-- Whatever the peer answers, its answer leaves the same. -/
theorem step_of_answered (d : Dialer) (he : e.answered? = some id) :
    (d.step e).1 = d.answer id := by
  unfold answer
  cases e with
  | established id' =>
    obtain rfl := Option.some_inj.mp he
    simp only [step]
    cases d.attempt? id' with
    | none => rfl
    | some a => exact establish_fst d a
  | refused id' thrown =>
    obtain rfl := Option.some_inj.mp he
    simp only [step]
    cases d.attempt? id' with
    | none => rfl
    | some a => exact refuse_fst d a thrown
  | _ => cases he

theorem now_answer (d : Dialer) (id : Nat) : (d.answer id).now = d.now := by
  unfold answer
  repeat' split
  all_goals rfl

theorem attempts_answer (hd : Tidy d) (id : Nat) :
    (d.answer id).attempts = d.attempts.map fun a => if a.id = id then a.settle else a := by
  -- An attempt that is over has no timer set, so settling it again changes nothing.
  have hfinished {a : Attempt} (ha : a ∈ d.attempts) (hp : a.phase = .finished) : a.settle = a := by
    have harmed := hd.armed a ha
    rw [hp] at harmed
    rw [Attempt.settle, ← hp, ← show a.armed = false from harmed]
  unfold answer
  cases h : d.attempt? id with
  | none =>
    have hne : ∀ a ∈ d.attempts, ¬a.id = id := fun a ha hid =>
      Option.some_ne_none a (((attempt?_eq_some_iff hd).mpr ⟨ha, hid⟩).symm.trans h)
    exact ((List.map_congr_left fun a ha => if_neg (hne a ha)).trans (List.map_id' _)).symm
  | some a =>
    obtain ⟨ha, rfl⟩ := (attempt?_eq_some_iff hd).mp h
    by_cases hp : a.phase = .finished
    · have hsame : ∀ b ∈ d.attempts, (if b.id = a.id then b.settle else b) = b := by
        intro b hb
        split
        · rename_i hid
          obtain rfl := List.inj_on_of_nodup_map hd.distinct hb ha hid
          exact hfinished hb hp
        · rfl
      simp only [if_pos hp]
      exact ((List.map_congr_left hsame).trans (List.map_id' _)).symm
    · simp only [if_neg hp]
      rfl

/-! ### What a step leaves -/

theorem now_step (d : Dialer) (he : e.IsRegular) : (d.step e).1.now = e.timeAfter d.now := by
  cases e with
  | connect id request =>
    simp only [step, connect]
    split <;> rfl
  | established id => rw [step_of_answered d rfl, now_answer]; rfl
  | refused id thrown => rw [step_of_answered d rfl, now_answer]; rfl
  | misled | broke => exact he.elim
  | advance milliseconds => rfl
  | lateCloseFailed thrown =>
    simp only [step]
    split <;> rfl

/-- A regular event changes each attempt as if there were no other one, and starts at most one. -/
theorem attempts_step (hd : Tidy d) (he : e.IsRegular) :
    (d.step e).1.attempts = d.attempts.map (after d.now e) ++ started d.now e := by
  have hquiet (hanswered : e.answered? = none) (hadvance : e.isAdvance = false) :
      d.attempts.map (after d.now e) = d.attempts := by
    have hafter : ∀ a ∈ d.attempts, after d.now e a = a := by
      intro a _
      simp [after, hanswered, hadvance]
    exact (List.map_congr_left hafter).trans (List.map_id' _)
  have hanswer {id : Nat} (hanswered : e.answered? = some id) (hadvance : e.isAdvance = false) :
      (d.step e).1.attempts = d.attempts.map (after d.now e) := by
    rw [step_of_answered d hanswered, attempts_answer hd]
    refine List.map_congr_left fun a _ => ?_
    simp only [after, hanswered, hadvance, Option.some.injEq, Bool.false_eq_true, false_and,
      and_false, if_false, eq_comm]
  cases e with
  | connect id request =>
    rw [hquiet rfl rfl]
    simp only [step, connect, started]
    rcases request.address with (_ | _) | _ <;> cases dueTime d.now request.timeout <;> simp
  | established id => exact (hanswer rfl rfl).trans (List.append_nil _).symm
  | refused id thrown => exact (hanswer rfl rfl).trans (List.append_nil _).symm
  | misled | broke => exact he.elim
  | advance milliseconds =>
    refine (List.map_congr_left fun a ha => ?_).trans (List.append_nil _).symm
    simp [after, Event.answered?, Event.isAdvance, Event.timeAfter, hd.armed a ha, Attempt.isDue]
  | lateCloseFailed thrown =>
    rw [hquiet rfl rfl]
    refine Eq.trans ?_ (List.append_nil _).symm
    simp only [step]
    split <;> rfl

/-- An attempt begins if its address can be read, and waits from then on. -/
theorem connect_of_isSome (d : Dialer) (id : Nat) (h : (Url.parse? o.uri).isSome = true) :
    ∃ uri, d.connect id (.ofOptions o) =
      ({ d with attempts := d.attempts ++ [standing d.now id o []] }, [.dial id uri]) := by
  obtain ⟨u, hu⟩ := Option.isSome_iff_exists.mp h
  refine ⟨(u.withHeartbeat o.heartbeat.text).href, ?_⟩
  simp only [connect, ConnectionRequest.address, ConnectionRequest.ofOptions, addressOf_some hu,
    dueTime]
  rfl

/-- An address that cannot be read ends the call at once. -/
theorem connect_of_none (d : Dialer) (id : Nat) (h : Url.parse? o.uri = none) :
    d.connect id (.ofOptions o) =
      (d, [.finish id (.failed (.invalidUri invalidUrlDetail))]) := by
  simp only [connect, ConnectionRequest.address, ConnectionRequest.ofOptions, addressOf_none h,
    dueTime]

theorem mem_started (he : e.IsRegular) : a ∈ started now e ↔
    ∃ id o, e = .connect id (.ofOptions o) ∧ (Url.parse? o.uri).isSome = true ∧
      a = standing now id o [] := by
  cases e with
  | connect id request =>
    obtain ⟨o, rfl⟩ := he
    have hsame (id' : Nat) (o' : ConnectionOptions) :
        Event.connect id (.ofOptions o) = .connect id' (.ofOptions o') ↔ id = id' ∧ o = o' := by
      rw [Event.connect.injEq, ConnectionRequest.ofOptions_inj]
    cases h : Url.parse? o.uri with
    | none => simp [started, connect_of_none _ _ h, hsame, h]
    | some u =>
      obtain ⟨uri, hc⟩ := connect_of_isSome ⟨now, []⟩ id (Option.isSome_of_eq_some h)
      simp [started, hc, hsame, h]
  | _ => simp [started]

/-- What begins has the number that its caller gave it. -/
theorem started_sublist (now : Number) (e : Event) :
    ((started now e).map (·.id)).Sublist e.begun?.toList := by
  cases e with
  | connect id request =>
    simp only [started, connect, Event.begun?]
    rcases request.address with (_ | _) | _ <;> cases dueTime now request.timeout <;> simp
  | _ => exact List.nil_sublist _

theorem after_id (now : Number) (e : Event) (a : Attempt) : (after now e a).id = a.id := by
  unfold after
  repeat' split
  all_goals rfl

/-! ## Runs -/

theorem run_eq_played (d : Dialer) (events : List Event) : d.run events = played step d events := by
  induction events generalizing d with
  | nil => rfl
  | cons e events ih =>
    simp only [run, ih]
    rfl

theorem reached_concat (u : List Event) (e : Event) :
    reached (u ++ [e]) = ((reached u).step e).1 := by
  rw [reached, run_eq_played, played_concat, ← run_eq_played]
  rfl

/-- The attempts at the end of a run are those that have begun in it, each where it stands. -/
structure Faithful (events : List Event) : Prop where
  numbered : ((reached events).attempts.map (·.id)).Sublist (events.filterMap Event.begun?)
  now : (reached events).now = clock events
  mem : ∀ a, a ∈ (reached events).attempts ↔
    ∃ id o u v, Began events id o u v ∧ a = standing (clock u) id o v

theorem Faithful.tidy (h : Faithful events) (hr : Regular events) : Tidy (reached events) := by
  refine ⟨h.numbered.nodup hr.numbered, fun a ha => ?_⟩
  obtain ⟨id, o, u, v, _, rfl⟩ := (h.mem a).mp ha
  rfl

theorem Faithful.concat (h : Faithful u) (hu : Regular (u ++ [e])) : Faithful (u ++ [e]) := by
  have he : e.IsRegular := hu.regular e (by simp)
  have hattempts := attempts_step (h.tidy hu.of_append) he
  rw [h.now] at hattempts
  refine ⟨?_, by rw [reached_concat, now_step _ he, h.now, clock_concat], fun a => ?_⟩
  · have hids : ((reached u).attempts.map (after (clock u) e)).map (·.id) =
        (reached u).attempts.map (·.id) := by
      simp [after_id]
    rw [reached_concat, hattempts, List.map_append, hids, List.filterMap_append]
    refine h.numbered.append ((started_sublist (clock u) e).trans ?_)
    cases hbegun : e.begun? <;> simp [hbegun]
  · rw [reached_concat, hattempts, List.mem_append, mem_started he, List.mem_map]
    constructor
    · rintro (⟨b, hb, rfl⟩ | ⟨id, o, rfl, hurl, rfl⟩)
      · obtain ⟨id, o, v, w, hbegan, rfl⟩ := (h.mem b).mp hb
        refine ⟨id, o, v, w ++ [e], hbegan.append [e], ?_⟩
        rw [hbegan.clock_eq, after_standing]
      · exact ⟨id, o, u, [], ⟨rfl, hurl⟩, rfl⟩
    · rintro ⟨id, o, v, w, hbegan, rfl⟩
      rcases Began.concat_iff.mp hbegan with ⟨rfl, rfl, rfl, hurl⟩ | ⟨w, rfl, hbefore⟩
      · exact .inr ⟨id, o, rfl, hurl, rfl⟩
      · refine .inl ⟨_, (h.mem _).mpr ⟨id, o, v, w, hbefore, rfl⟩, ?_⟩
        rw [hbefore.clock_eq, after_standing]

theorem faithful (h : Regular events) : Faithful events := by
  induction events using List.reverseRecOn with
  | nil =>
    refine ⟨List.nil_sublist _, rfl, fun a => ?_⟩
    constructor
    · rintro ⟨⟩
    · rintro ⟨id, o, u, v, hbegan, _⟩
      simpa using hbegan.split
  | append_singleton u e ih => exact (ih h.of_append).concat h

/-- An attempt stands where its record says. -/
theorem stands_iff (h : Regular events) :
    Stands events id p ↔ ((reached events).attempt? id).map (·.phase) = some p := by
  have hf := faithful h
  rw [Option.map_eq_some_iff]
  simp only [attempt?_eq_some_iff (hf.tidy h)]
  constructor
  · rintro ⟨o, u, v, hbegan, hp⟩
    exact ⟨_, ⟨(hf.mem _).mpr ⟨id, o, u, v, hbegan, rfl⟩, rfl⟩, hp⟩
  · rintro ⟨a, ⟨ha, rfl⟩, hp⟩
    obtain ⟨id, o, u, v, hbegan, rfl⟩ := (hf.mem a).mp ha
    exact ⟨o, u, v, hbegan, hp⟩

/-- The timer of an attempt is set while it waits. -/
theorem armed_iff (h : Regular events) (ha : a ∈ (reached events).attempts) :
    a.armed = true ↔ Stands events a.id .waiting := by
  have htidy := (faithful h).tidy h
  rw [stands_iff h, (attempt?_eq_some_iff htidy).mpr ⟨ha, rfl⟩, htidy.armed a ha]
  simp

end Dialer

end Amqp
