import Amqp.Proofs.Hub.Agreement
import Amqp.Simulation.ChannelPlay

/-!
# Plays over a broker

A world over a broker is a hub whose outcomes wait as jobs. Every step of a play and every job after
it makes events of that hub, so that a play is a run of a hub in which, once no job is left, the
channels have heard of everything. The connection drops only in a step of its own, when no channel
is being opened: after every step of a play the channels agree with the broker.
-/

namespace Amqp.Simulation

open Hub (Event reached)

/-- What a job has for a channel to hear: what one of its calls came to. -/
def Job.outcome? (ch : Nat) : Job → Option (Nat × Channel.Outcome)
  | .answered ch' call o => if ch' = ch then some (call, o) else none
  | _ => none

/-- The jobs that there are over a broker, while no channel is being opened. -/
def Job.IsUsual : Job → Prop
  | .opened .. | .clientAnswered .. => False
  | .later _ (.failed ..) => True
  | .later .. => False
  | _ => True

/-- A job that no channel hears an outcome from. -/
structure Job.IsAside (job : Job) : Prop where
  usual : job.IsUsual
  silent : ∀ ch, job.outcome? ch = none

/-- What a handler asks for is no consumer, and if it is a close, then one without parameters. -/
theorem Handler.asks_of_react {handler : Handler} {number : Nat} {d : Delivery}
    {r : Channel.Request} (hreact : handler.react number d = .asks r) (ch call : Nat) :
    (Event.issue ch call r).subscription? = none ∧ (Event.issue ch call r).IsWorded := by
  cases handler with
  | collect | fail => cases hreact
  | failOn text thrown =>
    simp only [react] at hreact
    split at hreact
    · split at hreact <;> cases hreact
    · cases hreact
  | acknowledgeJson =>
    simp only [react] at hreact
    split at hreact <;> cases hreact <;> exact ⟨rfl, trivial⟩
  | close =>
    cases hreact
    exact ⟨rfl, (Event.isWorded_of_given (.inl rfl)).1⟩
  | settle | retry | republish =>
    cases hreact
    exact ⟨rfl, trivial⟩

namespace World

/-- The hub of a world in which no channel is being opened. -/
def hub (w : World) : Hub where
  broker := w.broker
  lines := w.lines.mapIdx fun ch line => ⟨line.machine, w.jobs.filterMap (Job.outcome? ch)⟩
  subscriptions := w.subscriptions.map fun s => ⟨s.call, s.queue, s.mode⟩

/-- A world over a broker becomes one with that hub. -/
structure Comes (w w' : World) (h : Hub) : Prop where
  hub : w'.hub = h
  medium : w'.medium = w.medium
  owners : w'.owners = w.owners
  jobs : (∀ j ∈ w.jobs, j.IsUsual) → ∀ j ∈ w'.jobs, j.IsUsual

variable {w w' w'' : World} {h h' : Hub} {ch call : Nat} {job : Job}

namespace Comes

theorem refl (w : World) : Comes w w w.hub := ⟨rfl, rfl, rfl, id⟩

theorem trans (hc : Comes w w' h) (hc' : Comes w' w'' h') : Comes w w'' h' where
  hub := hc'.hub
  medium := hc'.medium.trans hc.medium
  owners := hc'.owners.trans hc.owners
  jobs husual := hc'.jobs (hc.jobs husual)

/-- What comes of doing something for each of some things, in order. -/
theorem foldl {α : Type} {f : World → α → World} {g : Hub → α → Hub} {xs : List α}
    (hone : ∀ x ∈ xs, ∀ w, Comes w (f w x) (g w.hub x)) (w : World) :
    Comes w (xs.foldl f w) (xs.foldl g w.hub) := by
  induction xs generalizing w with
  | nil => exact refl w
  | cons x xs ih =>
    obtain ⟨hx, hxs⟩ := List.forall_mem_cons.mp hone
    have hrest := ih hxs (f w x)
    rw [(hx w).hub] at hrest
    exact (hx w).trans hrest

/-- Doing something for each of some things leaves the hub alone if each one does. -/
theorem foldl_self {α : Type} {f : World → α → World} {xs : List α}
    (hone : ∀ x ∈ xs, ∀ w, Comes w (f w x) w.hub) (w : World) :
    Comes w (xs.foldl f w) w.hub := by
  have hfold := foldl (g := fun h _ => h) hone w
  rwa [List.foldl_fixed] at hfold

end Comes

/-- More jobs leave the hub alone as long as no channel hears an outcome from them. -/
theorem comes_jobs (w : World) {jobs : List Job} (haside : ∀ j ∈ jobs, j.IsAside) :
    Comes w { w with jobs := w.jobs ++ jobs } w.hub where
  hub := by
    have hnone (ch : Nat) : jobs.filterMap (Job.outcome? ch) = [] :=
      List.filterMap_eq_nil_iff.mpr fun j hj => (haside j hj).silent ch
    simp only [hub, List.filterMap_append, hnone, List.append_nil]
  medium := rfl
  owners := rfl
  jobs husual j hj := by
    rcases List.mem_append.mp hj with hj | hj
    · exact husual j hj
    · exact (haside j hj).usual

theorem comes_push (w : World) (haside : job.IsAside) : Comes w (w.push job) w.hub :=
  w.comes_jobs (by simpa using haside)

/-- An outcome that waits as a job waits for its channel. -/
theorem comes_push_answered (w : World) (ch call : Nat) (o : Channel.Outcome) :
    Comes w (w.push (.answered ch call o)) (w.hub.modifyLine ch (·.await call o)) where
  hub := by
    simp only [hub, push, Hub.modifyLine, Hub.mk.injEq, true_and, and_true]
    apply List.ext_getElem?
    intro i
    rw [List.getElem?_modify, List.getElem?_mapIdx, List.getElem?_mapIdx]
    by_cases hi : ch = i <;> cases w.lines[i]? <;>
      simp [hi, Hub.Line.await, Job.outcome?, List.filterMap_append]
  medium := rfl
  owners := rfl
  jobs husual j hj := by
    rcases List.mem_append.mp hj with hj | hj
    · exact husual j hj
    · rw [List.mem_singleton.mp hj]
      trivial

/-- The report of a call that is over is nothing that channels hear of. -/
theorem comes_finish (w : World) (call : Nat) (shown : Shown) :
    Comes w (w.finish call shown) w.hub := by
  rw [finish]
  split
  · exact ⟨rfl, rfl, rfl, id⟩
  · split
    · exact w.comes_push ⟨trivial, fun _ => rfl⟩
    · exact w.comes_push ⟨trivial, fun _ => rfl⟩
  · exact .refl w

/-- Something happens to a channel. -/
theorem comes_tell (w : World) (ch : Nat) (e : Channel.Event) :
    Comes w (w.tell ch e).1 (w.hub.modifyLine ch (·.tell e)) := by
  rw [tell]
  cases hline : w.lines[ch]? with
  | none =>
    have hlength : w.hub.lines.length ≤ ch := by
      simpa [hub] using List.getElem?_eq_none_iff.mp hline
    rw [Hub.modifyLine, List.modify_eq_self hlength]
    exact .refl w
  | some line =>
    have hmachine : Comes w (w.modifyLine ch fun l => { l with machine := (line.machine.step e).1 })
        (w.hub.modifyLine ch (·.tell e)) := by
      refine ⟨?_, rfl, rfl, id⟩
      simp only [hub, modifyLine, Hub.modifyLine, Hub.mk.injEq, true_and, and_true]
      apply List.ext_getElem?
      intro i
      rw [List.getElem?_modify, List.getElem?_mapIdx, List.getElem?_mapIdx, List.getElem?_modify]
      by_cases hi : ch = i
      · subst hi
        simp [hline, Hub.Line.tell]
      · cases w.lines[i]? <;> simp [hi]
    simp only []
    rw [← hmachine.hub]
    refine hmachine.trans (Comes.foldl_self (fun f _ w => ?_) _)
    cases f with
    | log entry => exact ⟨rfl, rfl, rfl, id⟩
    | finish call answer => exact w.comes_finish call _
    | await call => exact w.comes_push ⟨trivial, fun _ => rfl⟩
    | broke thrown => exact ⟨rfl, rfl, rfl, id⟩
    | _ => exact .refl w

/-- The consumer that a call asked for is the one that the hub knows. -/
theorem subscription?_hub (w : World) (call : Nat) :
    w.hub.subscription? call =
      (w.subscription? call).map fun s => ⟨s.call, s.queue, s.mode⟩ := by
  simp only [Hub.subscription?, hub, List.find?_map, subscription?]
  rfl

/-- A message arrives at a channel. -/
theorem comes_arrive (w : World) (ch call : Nat) (m : Message) :
    Comes w (w.arrive ch call m) (w.hub.hear (.deliver ch call m)) := by
  rw [arrive, Hub.hear, Hub.mode?, w.subscription?_hub]
  cases w.subscription? call with
  | none => exact .refl w
  | some s =>
    have htold := w.comes_tell ch (.arrived call s.mode m)
    simp only [Option.map_some]
    split
    · rw [← htold.hub]
      exact htold.trans (comes_push _ ⟨trivial, fun _ => rfl⟩)
    · exact htold

/-- A channel hears that a consumer is cancelled. -/
theorem comes_hearCancelled (w : World) (ch call : Nat) (tag : Value) :
    Comes w (w.hearCancelled ch call tag) (w.hub.hear (.cancelled ch call tag)) := by
  rw [hearCancelled, Hub.hear, w.subscription?_hub]
  cases w.subscription? call with
  | none => exact .refl w
  | some s => exact w.comes_tell ch (.cancelled tag s.queue)

/-- The broker does something, and the channels hear what it tells. -/
theorem comes_tellBroker (w : World) (f : Broker.Event) :
    Comes w (w.tellBroker f).1
      ((w.broker.step f).effects.foldl Hub.hear
        { w.hub with broker := (w.broker.step f).broker }) := by
  have hserve (n : Nat) : ∀ j ∈ List.replicate n Job.serve, j.IsAside := by
    intro j hj
    rw [List.eq_of_mem_replicate hj]
    exact ⟨trivial, fun _ => rfl⟩
  have hbroker : Comes w { w with broker := (w.broker.step f).broker }
      { w.hub with broker := (w.broker.step f).broker } := ⟨rfl, rfl, rfl, id⟩
  have hstart (n : Nat) : Comes w
      { w with broker := (w.broker.step f).broker, jobs := w.jobs ++ List.replicate n .serve }
      { w.hub with broker := (w.broker.step f).broker } :=
    hbroker.trans (comes_jobs _ (hserve n))
  have hscheduled := hstart
    ((w.broker.step f).broker.scheduled.length - w.broker.scheduled.length)
  rw [tellBroker, ← hscheduled.hub]
  refine hscheduled.trans (Comes.foldl (fun x _ w => ?_) _)
  cases x with
  | deliver ch call m => exact w.comes_arrive ch call m
  | cancelled ch call tag => exact w.comes_hearCancelled ch call tag
  | lost ch error => exact w.comes_tell ch (.lost error)

/-! ## Requests -/

/-- A channel is asked for something: its hub makes the step, if the consumer is known that the
request asks for. -/
theorem comes_issue (hmedium : w.medium = .broker) {r : Channel.Request}
    (hhub : w.hub = { h with
      subscriptions := h.subscriptions ++ (Event.issue ch call r).subscription?.toList }) :
    Comes w (w.issue ch call r) (h.step (.issue ch call r)) := by
  have hlines : h.lines = w.hub.lines := by rw [hhub]
  have htold := w.comes_tell ch (.issue call r)
  have hstarted : w.hub.modifyLine ch (·.tell (.issue call r)) = h.started (.issue ch call r) := by
    rw [hhub]
    rfl
  rw [hstarted] at htold
  cases hl : h.lines[ch]? with
  | none =>
    have hnone : w.lines[ch]? = none := by
      simpa [hlines, hub] using hl
    rw [Hub.step_issue_of_none hl]
    simp only [issue, tell, hnone, List.foldl_nil] at htold ⊢
    exact htold
  | some l =>
    obtain ⟨line, hline, hmachine⟩ :
        ∃ line, w.lines[ch]? = some line ∧ line.machine = l.machine := by
      rw [hlines] at hl
      simp only [hub, List.getElem?_mapIdx, Option.map_eq_some_iff] at hl
      obtain ⟨line, hline, rfl⟩ := hl
      exact ⟨line, hline, rfl⟩
    have heffects : (w.tell ch (.issue call r)).2 = (l.machine.step (.issue call r)).2 := by
      simp only [tell, hline, hmachine]
    rcases htell : w.tell ch (.issue call r) with ⟨w', effects⟩
    rw [htell] at htold heffects
    simp only at htold heffects
    subst heffects
    simp only [issue, htell]
    rcases Channel.Machine.asksOnce_step l.machine call r with
      hquiet | ⟨c, p, _, hissued, _, hasks⟩
    · rw [Hub.step_issue_of_quiet hl hquiet, ← htold.hub]
      refine htold.trans (Comes.foldl_self (fun f hf w => ?_) _)
      cases f with
      | ask call p => exact absurd hf (hquiet.not_ask call p)
      | _ => exact .refl w
    · obtain rfl : c.id = call := Option.some.inj hissued.symm
      have hbroker : w'.broker = h.broker := congrArg Hub.broker htold.hub
      have houtcome : (w'.tellBroker (.request ch c.id p)).2 =
          (h.broker.request ch c.id p).outcome := by
        rw [← hbroker]
        rfl
      have hasked := htold.trans (w'.comes_tellBroker (.request ch c.id p))
      have hanswered := hasked.trans
        (comes_push_answered _ ch c.id (h.broker.request ch c.id p).outcome)
      rw [hasked.hub, htold.hub, hbroker] at hanswered
      rw [Hub.step_issue_of_asks hl hasks rfl, hasks]
      simp only [List.foldl_cons, List.foldl_nil, ask, htold.medium, hmedium, houtcome]
      exact hanswered

/-! ## Runs -/

/-- The world is over a broker, and its hub has come of a numbered run whose ends are worded, and
in which no channel missed its end. -/
structure Follows (w : World) (events : List Event) : Prop where
  hub : w.hub = reached events
  medium : w.medium = .broker
  jobs : ∀ j ∈ w.jobs, j.IsUsual
  numbered : Hub.Numbered events
  known : ∀ call ∈ events.filterMap Event.issued?, call < w.owners.length
  worded : ∀ e ∈ events, e.IsWorded
  heard : Hub.missedEnds events = []

variable {events : List Event} {e : Event} {r : Channel.Request} {index : Nat}

namespace Follows

/-- What changes nothing in the hub is no event. -/
theorem comes (hw : w.Follows events) (hc : Comes w w' w.hub) : w'.Follows events where
  hub := hc.hub.trans hw.hub
  medium := hc.medium.trans hw.medium
  jobs := hc.jobs hw.jobs
  numbered := hw.numbered
  known := by
    rw [hc.owners]
    exact hw.known
  worded := hw.worded
  heard := hw.heard

/-- What makes a step of the hub is an event, if a request comes under the number of a new call. -/
theorem step (hw : w.Follows events) {w₀ : World} (hc : Comes w₀ w' ((reached events).step e))
    (hmedium : w₀.medium = w.medium) (hjobs : w₀.jobs = w.jobs)
    (howners : w.owners.length ≤ w₀.owners.length)
    (hissued : ∀ call, e.issued? = some call → w.owners.length ≤ call ∧ call < w₀.owners.length)
    (hworded : e.IsWorded) (hheard : (reached events).missedBy e = []) :
    w'.Follows (events ++ [e]) where
  hub := by rw [hc.hub, Hub.reached_concat]
  medium := by rw [hc.medium, hmedium, hw.medium]
  jobs := hc.jobs (hjobs ▸ hw.jobs)
  numbered := by
    rw [Hub.Numbered, Hub.issued_concat, List.nodup_append]
    refine ⟨hw.numbered, by cases e.issued? <;> simp, ?_⟩
    rintro call hcall _ hnew rfl
    have hle := (hissued call (Option.mem_toList.mp hnew)).1
    exact absurd (hw.known call hcall) (Nat.not_lt_of_le hle)
  known := by
    intro call hcall
    rw [Hub.issued_concat] at hcall
    rw [hc.owners]
    rcases List.mem_append.mp hcall with hcall | hcall
    · exact Nat.lt_of_lt_of_le (hw.known call hcall) howners
    · exact (hissued call (Option.mem_toList.mp hcall)).2
  worded := by
    intro e' he'
    rcases List.mem_append.mp he' with he' | he'
    · exact hw.worded e' he'
    · rwa [List.mem_singleton.mp he']
  heard := by
    rw [Hub.missedEnds, gathered_concat, List.append_eq_nil_iff]
    exact ⟨hw.heard, hheard⟩

/-- A channel that is opened and heard of at once makes two events. -/
theorem opened (hw : w.Follows events)
    (hc : Comes w w' (((reached events).step .opening).step .opened)) :
    w'.Follows (events ++ [.opening] ++ [.opened]) where
  hub := by rw [hc.hub, Hub.reached_concat, Hub.reached_concat]
  medium := by rw [hc.medium, hw.medium]
  jobs := hc.jobs hw.jobs
  numbered := by
    rw [Hub.Numbered, Hub.issued_concat, Hub.issued_concat]
    simp only [Event.issued?, Option.toList_none, List.append_nil]
    exact hw.numbered
  known := by
    rw [Hub.issued_concat, Hub.issued_concat, hc.owners]
    simp only [Event.issued?, Option.toList_none, List.append_nil]
    exact hw.known
  worded := by
    intro e he
    simp only [List.append_assoc, List.mem_append, List.mem_singleton] at he
    rcases he with he | rfl | rfl
    · exact hw.worded e he
    · trivial
    · trivial
  heard := by
    rw [Hub.missedEnds, gathered_concat, gathered_concat, List.append_eq_nil_iff,
      List.append_eq_nil_iff]
    exact ⟨⟨hw.heard, rfl⟩, rfl⟩

/-- A request under the number of a new call is an event. -/
theorem issue (hw : w.Follows events) {w₀ : World}
    (hhub : w₀.hub = { reached events with
      subscriptions := (reached events).subscriptions ++
        (Event.issue ch w.owners.length r).subscription?.toList })
    (hmedium : w₀.medium = w.medium) (hjobs : w₀.jobs = w.jobs)
    (howners : w₀.owners.length = w.owners.length + 1)
    (hworded : (Event.issue ch w.owners.length r).IsWorded) :
    (w₀.issue ch w.owners.length r).Follows (events ++ [.issue ch w.owners.length r]) := by
  refine hw.step (comes_issue (hmedium.trans hw.medium) hhub) hmedium hjobs ?_ ?_ hworded rfl
  · rw [howners]
    exact Nat.le_succ _
  · rintro _ ⟨⟩
    rw [howners]
    exact ⟨Nat.le_refl _, Nat.lt_succ_self _⟩

end Follows

/-- The world follows a run of a hub. -/
def Plays (w : World) : Prop := ∃ events, w.Follows events

namespace Plays

theorem comes (hw : w.Plays) (hc : Comes w w' w.hub) : w'.Plays := by
  obtain ⟨events, hw⟩ := hw
  exact ⟨events, hw.comes hc⟩

/-- The hub of a world that follows a run hangs together. -/
theorem linked (hw : w.Plays) : w.hub.Linked [] := by
  obtain ⟨events, hw⟩ := hw
  rw [hw.hub, ← hw.heard]
  exact Hub.linked_reached hw.numbered hw.worded

/-- While no channel is being opened, none misses its end. -/
theorem missedBy_eq_nil (hw : w.Plays) (e : Event) : w.hub.missedBy e = [] := by
  cases e with
  | disconnect error =>
    have hcounted := hw.linked.counted
    rw [Broker.tallies, List.length_map] at hcounted
    rw [Hub.missedBy, hcounted]
    simp [hub]
  | _ => rfl

/-- A step of the hub that is no request. -/
theorem step (hw : w.Plays) (hc : Comes w w' (w.hub.step e)) (hissued : e.issued? = none)
    (hworded : e.IsWorded) : w'.Plays := by
  have hheard := hw.missedBy_eq_nil e
  obtain ⟨events, hw⟩ := hw
  rw [hw.hub] at hc hheard
  refine ⟨_, hw.step hc rfl rfl (Nat.le_refl _) (fun call hcall => ?_) hworded hheard⟩
  rw [hissued] at hcall
  cases hcall

/-- Someone calls, with a request that asks for no consumer. -/
theorem issue (hw : w.Plays) (o : Owner)
    (hnone : (Event.issue ch w.owners.length r).subscription? = none)
    (hworded : (Event.issue ch w.owners.length r).IsWorded) :
    ((w.own o).1.issue ch (w.own o).2 r).Plays := by
  obtain ⟨events, hw⟩ := hw
  refine ⟨_, hw.issue ?_ rfl rfl ?_ hworded⟩
  · rw [hnone, ← hw.hub, Option.toList_none, List.append_nil]
    rfl
  · simp [own]

/-- Someone calls for a consumer. -/
theorem consume (hw : w.Plays) (o : Owner) (ch : Nat) (queue options : Value) (handler : Handler) :
    (((w.own o).1.subscribe
      ⟨(w.own o).2, ch, queue, Channel.ackModeOf options, handler⟩).issue ch (w.own o).2
        (.consume queue options)).Plays := by
  obtain ⟨events, hw⟩ := hw
  refine ⟨_, hw.issue ?_ rfl rfl ?_ trivial⟩
  · rw [← hw.hub]
    simp only [hub, subscribe, List.map_append]
    rfl
  · simp [own, subscribe]

/-- What each of some things does goes on following a run. -/
theorem foldl {α : Type} {f : World → α → World} {xs : List α}
    (hone : ∀ x ∈ xs, ∀ w : World, w.Plays → (f w x).Plays) (hw : w.Plays) :
    (xs.foldl f w).Plays :=
  List.foldlRecOn xs f hw fun w hw x hx => hone x hx w hw

/-- A handler starts, and reacts. -/
theorem handle (hw : w.Plays) (ch : Nat) (t : Channel.Turn) : (w.handle ch t).Plays := by
  rw [World.handle]
  split
  · rename_i delivery s _ _
    have hrecorded : Plays { w with
        recorded := w.recorded ++ [⟨ch, t.delivery⟩]
        delivered := w.delivered ++ [(w.recorded.length, delivery)] } :=
      hw.comes ⟨rfl, rfl, rfl, id⟩
    simp only []
    cases hreact : s.handler.react t.delivery delivery with
    | nothing => exact hrecorded
    | throws thrown => exact hrecorded.comes (comes_push _ ⟨trivial, fun _ => rfl⟩)
    | asks r =>
      obtain ⟨hnone, hworded⟩ := Handler.asks_of_react hreact ch w.owners.length
      exact hrecorded.issue (.handler w.recorded.length) hnone hworded
  · exact hw

/-- A call gets a number. -/
theorem own (hw : w.Plays) (o : Owner) : (w.own o).1.Plays := by
  obtain ⟨events, hw⟩ := hw
  refine ⟨events, hw.hub, hw.medium, hw.jobs, hw.numbered, fun call hcall => ?_, hw.worded,
    hw.heard⟩
  have hlt := hw.known call hcall
  simp only [World.own, List.length_append]
  omega

/-- A channel goes on by itself. -/
theorem tell {f : Channel.Event} (hw : w.Plays)
    (he : (∃ call, e = .heard ch call ∧ f = .heard call) ∨ e = .turn ch ∧ f = .turn ∨
      ∃ d thrown, e = .handlerFailed ch d thrown ∧ f = .handlerFailed d thrown) :
    (w.tell ch f).1.Plays := by
  have htold := w.comes_tell ch f
  rw [← Hub.step_of_tells he] at htold
  rcases he with ⟨call, rfl, rfl⟩ | ⟨rfl, rfl⟩ | ⟨d, thrown, rfl, rfl⟩ <;>
    exact hw.step htold rfl trivial

/-- The broker goes on by itself. -/
theorem tellBroker {f : Broker.Event} (hw : w.Plays) (hforwarded : w.hub.forwarded? e = some f)
    (hissued : e.issued? = none) (hopening : e ≠ .opening) : (w.tellBroker f).1.Plays := by
  have htold := w.comes_tellBroker f
  have hstep := Hub.step_of_forwarded hforwarded hissued hopening
  refine hw.step (hstep ▸ htold) hissued ?_
  cases e with
  | issue => cases hissued
  | _ => trivial

/-- A job that is taken up leaves the others. -/
theorem taken {rest : List Job} (hw : w.Plays) (hjobs : w.jobs = job :: rest)
    (hsilent : ∀ ch, job.outcome? ch = none) : ({ w with jobs := rest } : World).Plays := by
  refine hw.comes ⟨?_, rfl, rfl, fun husual j hj => ?_⟩
  · simp only [hub, hjobs, List.filterMap_cons, hsilent]
  · exact husual j (hjobs ▸ List.mem_cons_of_mem _ hj)

/-- A channel hears the outcome that has waited longest. -/
theorem answered {rest : List Job} {o : Channel.Outcome} (hw : w.Plays)
    (hjobs : w.jobs = .answered ch call o :: rest) :
    (({ w with jobs := rest } : World).tell ch (.answered call o)).1.Plays := by
  have hheard := comes_tell { w with jobs := rest } ch (.answered call o)
  have hlinked := hw.linked
  refine hw.step (e := .answered ch call) ⟨hheard.hub.trans ?_, hheard.medium, hheard.owners, ?_⟩
    rfl trivial
  · rw [Hub.step_answered]
    simp only [Hub.modifyLine, hub, Hub.mk.injEq, true_and, and_true]
    apply List.ext_getElem?
    intro i
    rw [List.getElem?_modify, List.getElem?_modify, List.getElem?_mapIdx, List.getElem?_mapIdx]
    cases hline : w.lines[i]? with
    | none => rfl
    | some line =>
      by_cases hi : ch = i
      · subst hi
        have hwaiting : w.jobs.filterMap (Job.outcome? ch) =
            (call, o) :: rest.filterMap (Job.outcome? ch) := by
          simp [hjobs, Job.outcome?]
        have hl : w.hub.lines[ch]? =
            some ⟨line.machine, (call, o) :: rest.filterMap (Job.outcome? ch)⟩ := by
          simp [hub, hline, hwaiting]
        obtain ⟨_, hsound⟩ := hlinked.exists_sound hl
        have hapart := hsound.apart
        rw [List.map_cons, List.nodup_cons] at hapart
        have hfresh : ∀ o' ∈ rest.filterMap (Job.outcome? ch), o'.1 ≠ call := by
          rintro o' ho' rfl
          exact hapart.1 (List.mem_map.mpr ⟨o', ho', rfl⟩)
        simp [hwaiting, Hub.Line.answer_cons hfresh]
      · simp [hi, hjobs, Job.outcome?]
  · exact fun husual => hheard.jobs fun j hj => husual j (hjobs ▸ List.mem_cons_of_mem _ hj)

/-- A job goes on following a run. -/
theorem perform {rest : List Job} (hw : w.Plays) (hjobs : w.jobs = job :: rest) :
    (({ w with jobs := rest } : World).perform job).Plays := by
  have husual : job.IsUsual := by
    obtain ⟨events, hw⟩ := hw
    exact hw.jobs job (hjobs ▸ List.mem_cons_self ..)
  cases job with
  | opened | clientAnswered => exact husual.elim
  | answered ch call o => exact hw.answered hjobs
  | heard ch call =>
    exact (hw.taken hjobs fun _ => rfl).tell (.inl ⟨call, rfl, rfl⟩)
  | turn ch =>
    have htold := (hw.taken hjobs fun _ => rfl).tell
      (.inr (.inl ⟨(rfl : Event.turn ch = .turn ch), rfl⟩))
    simp only [World.perform]
    refine htold.foldl fun f _ w hw => ?_
    cases f with
    | start t => exact hw.handle ch t
    | _ => exact hw
  | handled d shown => exact (hw.taken hjobs fun _ => rfl).comes ⟨rfl, rfl, rfl, id⟩
  | failed ch d thrown =>
    exact (hw.taken hjobs fun _ => rfl).tell (.inr (.inr ⟨d, thrown, rfl, rfl⟩))
  | serve => exact (hw.taken hjobs fun _ => rfl).tellBroker (e := .serve) rfl rfl (by rintro ⟨⟩)
  | later n job =>
    cases job with
    | failed ch d thrown =>
      have htaken := hw.taken hjobs fun _ => rfl
      cases n with
      | zero => exact htaken.tell (.inr (.inr ⟨d, thrown, rfl, rfl⟩))
      | succ n => exact htaken.comes (comes_push _ ⟨trivial, fun _ => rfl⟩)
    | _ => exact husual.elim

/-- As long as there are jobs the world goes on following a run. -/
theorem settle (hw : w.Plays) (bound : Nat) : (w.settle bound).Plays := by
  induction bound generalizing w with
  | zero => exact hw
  | succ bound ih =>
    simp only [World.settle]
    split
    · exact hw
    · rename_i hjobs
      exact ih (hw.perform hjobs)

end Plays

/-! ## Steps -/

/-- The first job is performed first. -/
theorem settle_of_jobs {rest : List Job} (hjobs : w.jobs = job :: rest) (bound : Nat) :
    w.settle (bound + 1) = (({ w with jobs := rest } : World).perform job).settle bound := by
  rw [settle, hjobs]

/-- What is told of an attempt to open a channel that fails is nothing that channels hear of. -/
theorem comes_concludeOpening_of_threw (w : World) (call : Nat) (name : String) (thrown : Value) :
    Comes w (w.concludeOpening call name (.threw thrown)) w.hub := by
  simp only [concludeOpening, Channel.attempt]
  cases Channel.openError thrown with
  | error fault => exact w.comes_finish call _
  | ok e =>
    have hlogged : Comes w (w.log (Channel.failureEntry e)) w.hub := ⟨rfl, rfl, rfl, id⟩
    exact hlogged.trans (comes_finish _ call _)

/-- An attempt to open a channel that succeeds adds a channel. -/
theorem comes_concludeOpening_of_replied (hjobs : w.jobs = []) (call : Nat) (name : String)
    (reply : Value) :
    Comes w (w.concludeOpening call name (.replied reply))
      { w.hub with lines := w.hub.lines ++ [{ machine := Channel.opened name }] } := by
  have hadded (line : Line) : Comes w { w with lines := w.lines ++ [line] }
      { w.hub with lines := w.hub.lines ++ [{ machine := line.machine }] } := by
    refine ⟨?_, rfl, rfl, fun husual => husual⟩
    simp [hub, hjobs, List.mapIdx_append]
  simp only [concludeOpening, Channel.attempt]
  have hopened := hadded
    { machine := Channel.opened name, adapter := (({} : Client.Adapter).step (.listen 0)).1 }
  rw [← hopened.hub]
  exact hopened.trans (comes_finish _ call _)

/-- A channel is opened in the first job after the broker has opened its end. -/
theorem comes_opened (hmedium : w.medium = .broker) (hjobs : w.jobs = []) (call : Nat) :
    ∃ reply, (ChannelPlay.openChannel w call).jobs = [.opened call reply] ∧
      Comes w (({ ChannelPlay.openChannel w call with jobs := [] } : World).perform
        (.opened call reply)) ((w.hub.step .opening).step .opened) := by
  have hturned (b : Broker) :
      Comes w { w with broker := b, jobs := [] } { w.hub with broker := b } :=
    ⟨by simp only [hub, hjobs], rfl, rfl, fun _ => List.forall_mem_nil _⟩
  cases hrefusal : w.broker.refusal with
  | some error =>
    have hnext : w.broker.openNext =
        { broker := { w.broker with refusal := none }, outcome := .threw error } := by
      simp only [Broker.openNext, hrefusal]
    refine ⟨.threw error, ?_, ?_⟩
    · simp [ChannelPlay.openChannel, hmedium, tellBroker, Broker.step, hnext, push, hjobs]
    · have hrefused := hturned { w.broker with refusal := none }
      have hconcluded := hrefused.trans (comes_concludeOpening_of_threw _ call
        ({ w.broker with refusal := none } : Broker).nextIdentity error)
      rw [hrefused.hub, hmedium] at hconcluded
      rw [Hub.step_opening_opened_of_refusal rfl hrefusal]
      simp only [ChannelPlay.openChannel, hmedium, tellBroker, Broker.step, hnext, push, perform,
        answerOpening, List.foldl_nil]
      exact hconcluded
  | none =>
    have hnext : w.broker.openNext =
        { broker := { w.broker with channels := w.broker.channels ++ [{}] } } := by
      simp only [Broker.openNext, hrefusal]
    refine ⟨.done, ?_, ?_⟩
    · simp [ChannelPlay.openChannel, hmedium, tellBroker, Broker.step, hnext, push, hjobs]
    · have hissued :=
        hturned ({ w.broker with channels := w.broker.channels ++ [{}] } : Broker).issue
      have hconcluded := hissued.trans
        (comes_concludeOpening_of_replied rfl call w.broker.nextIdentity .undefined)
      rw [hissued.hub, hmedium] at hconcluded
      rw [Hub.step_opening_opened rfl hrefusal]
      simp only [ChannelPlay.openChannel, hmedium, tellBroker, Broker.step, hnext, push, perform,
        answerOpening, List.foldl_nil]
      exact hconcluded

end World

namespace ChannelPlay

/-- The steps of callers and of the connection: those that tell what only a scripted transport tells
are left out. -/
def Step.IsProper : Step → Prop
  | .request ch r =>
    ∀ call, (Event.issue ch call r).subscription? = none ∧ (Event.issue ch call r).IsWorded
  | .deliver .. | .brokerCancel .. | .closed .. | .release .. => False
  | _ => True

variable {w : World} {step : Step} {index : Nat}

theorem plays_start (hw : w.Plays) (hproper : step.IsProper) (hopen : step ≠ .openChannel) :
    (start w index step).1.Plays := by
  cases step with
  | openChannel => exact absurd rfl hopen
  | request ch r =>
    obtain ⟨hnone, hworded⟩ := hproper w.owners.length
    exact hw.issue _ hnone hworded
  | consume ch queue options handler => exact hw.consume _ ch queue options handler
  | deliver | brokerCancel | closed | release => exact hproper.elim
  | failed ch error =>
    obtain ⟨events, hfollows⟩ := hw
    simp only [start, hfollows.medium]
    exact ⟨events, hfollows⟩
  | settle ch d s multiple requeue =>
    simp only [start]
    cases w.recorded[d]? with
    | none => exact hw
    | some x => exact hw.issue (r := .settle x.delivery s multiple requeue) _ rfl trivial
  | disconnect error => exact hw.tellBroker (e := .disconnect error) rfl rfl (by rintro ⟨⟩)
  | refuseNext error => exact hw.tellBroker (e := .refuseNext error) rfl rfl (by rintro ⟨⟩)
  | tag | view | snapshot => exact hw

/-- A channel that someone asks for, from where no job is left, is opened first of all. -/
theorem plays_settle_openChannel (hw : w.Plays) (hrested : w.jobs = []) (index : Nat) :
    ((start w index .openChannel).1.settle patience).Plays := by
  obtain ⟨events, howned⟩ := hw.own (.step index)
  obtain ⟨reply, hopening, hopened⟩ :=
    World.comes_opened (w := (w.own (.step index)).1) howned.medium hrested
      (w.own (.step index)).2
  rw [howned.hub] at hopened
  have hfirst := World.settle_of_jobs hopening 999999
  have hplays : World.Plays _ := ⟨_, howned.opened hopened⟩
  have hsettled := hplays.settle 999999
  rw [← hfirst] at hsettled
  exact hsettled

/-- A step goes on following a run, from where no job was left. -/
theorem plays_play (hw : w.Plays) (hrested : w.jobs = []) (hproper : step.IsProper) (index : Nat)
    (script : Script) : (play w index step script).1.Plays := by
  simp only [play]
  generalize hcleared : ({ w with
    script, calls := [], logs := [], delivered := [], handled := [], ends := [],
    thrown := none } : World) = cleared
  have hjobs : cleared.jobs = [] := by
    rw [← hcleared]
    exact hrested
  replace hw : cleared.Plays := by
    rw [← hcleared]
    exact hw.comes ⟨rfl, rfl, rfl, id⟩
  cases objection? cleared step with
  | some remark => exact hw.settle patience
  | none =>
    by_cases hopen : step = .openChannel
    · subst hopen
      exact plays_settle_openChannel hw hjobs index
    · exact (plays_start hw hproper hopen).settle patience

/-- The world after steps, from the one with the index on. -/
def after (w : World) (index : Nat) : List (Step × Script) → World
  | [] => w
  | (step, script) :: rest => after (play w index step script).1 (index + 1) rest

/-- Every step is one of callers or of the connection, and leaves no job. -/
def Exhausts (w : World) (index : Nat) : List (Step × Script) → Prop
  | [] => True
  | (step, script) :: rest =>
    step.IsProper ∧ (play w index step script).1.jobs = [] ∧
      Exhausts (play w index step script).1 (index + 1) rest

/-- A play goes on following a run, and leaves no job. -/
theorem plays_after {steps : List (Step × Script)} (hw : w.Plays) (hrested : w.jobs = [])
    (hexhausts : Exhausts w index steps) :
    (after w index steps).Plays ∧ (after w index steps).jobs = [] := by
  induction steps generalizing w index with
  | nil => exact ⟨hw, hrested⟩
  | cons next rest ih =>
    obtain ⟨hproper, hleft, hrest⟩ := hexhausts
    exact ih (plays_play hw hrested hproper index next.2) hleft hrest

/-- After every step of a play over a broker, if each one runs until no job is left, the channels
agree with the broker. -/
theorem agree_after {steps : List (Step × Script)}
    (hexhausts : Exhausts { medium := .broker } 0 steps) :
    List.Forall₂ Hub.Agree ((after { medium := .broker } 0 steps).lines.map (·.machine))
      (after { medium := .broker } 0 steps).broker.channels := by
  have hnew : World.Plays { medium := .broker } :=
    ⟨[], rfl, rfl, List.forall_mem_nil _, List.nodup_nil, List.forall_mem_nil _,
      List.forall_mem_nil _, rfl⟩
  obtain ⟨hw, hrested⟩ := plays_after hnew rfl hexhausts
  generalize after { medium := .broker } 0 steps = w at hw hrested
  have hidle : w.hub.IsIdle := by
    refine ⟨rfl, fun l hl => ?_⟩
    simp only [World.hub, hrested, List.filterMap_nil, List.mem_mapIdx] at hl
    obtain ⟨ch, hch, rfl⟩ := hl
    rfl
  have hmachines : w.hub.lines.map (·.machine) = w.lines.map (·.machine) := by
    apply List.ext_getElem?
    intro i
    simp only [World.hub, List.getElem?_map, List.getElem?_mapIdx, Option.map_map]
    rfl
  rw [← hmachines]
  exact hw.linked.agree hidle

/-- A consumer whose handler gives a message back and acknowledges it the second time, and then the
connection drops. -/
example : Exhausts { medium := .broker } 0
    [(.openChannel, []),
      (.request 0 (.declareQueue (.table
        [("name", .text "jobs"), ("autoDelete", .bool false)])), []),
      (.consume 0 (.text "jobs") (.table []) .retry, []),
      (.request 0 (.publish (.text "") (.text "jobs") [1] (.table [])), []),
      (.disconnect (.error "Error" "gone" []), [])] :=
  ⟨trivial, rfl, fun _ => ⟨rfl, trivial⟩, rfl, trivial, rfl, fun _ => ⟨rfl, trivial⟩, rfl, trivial,
    rfl, trivial⟩

end ChannelPlay

end Amqp.Simulation
