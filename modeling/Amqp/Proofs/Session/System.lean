import Amqp.Proofs.Channel.Asking
import Amqp.Proofs.Client.Adapter

/-!
# A channel over an adapter

A session is a channel whose transport is an adapter over a client. What the channel asks for the
adapter carries out at once, and what the client hands over or reports the channel hears at once.
What a primitive comes to waits until the channel hears of it, so that other things may happen in
between. `Transition` lists what a step of a session makes of its two parts.
-/

namespace Amqp

/-- A consumer that a channel asked for. -/
structure Subscription where
  /-- The call that asked for it. -/
  call : Nat
  queue : Value
  mode : AckMode
  deriving Repr, Inhabited

/-- A channel over an adapter. -/
structure Session where
  machine : Channel.Machine
  adapter : Client.Adapter
  /-- The consumers that the channel asked the adapter for, in order. -/
  subscriptions : List Subscription := []
  /-- What primitives came to, by call, as far as the channel has not heard of it. -/
  outcomes : List (Nat × Channel.Outcome) := []
  deriving Repr, Inhabited

namespace Session

/-- What happens to a session. -/
inductive Event where
  /-- A caller asks something of the channel, under a number of its own. -/
  | issue (call : Nat) (request : Channel.Request)
  /-- The client answers the adapter's call. -/
  | replied (call : Nat) (outcome : Channel.Outcome)
  /-- The channel hears what the call's primitive came to. -/
  | answered (call : Nat)
  /-- The delivery of a decided settlement hears of it. -/
  | heard (call : Nat)
  /-- The client hands a message to a consumer. -/
  | handed (consumer : Nat) (message : Message)
  /-- The client tells a consumer that the broker has cancelled it. -/
  | dropped (consumer : Nat)
  /-- The client's channel is gone. -/
  | closed (error : Option Value)
  /-- The client reports an error. -/
  | failed (error : Value)
  /-- The next handler starts. -/
  | turn
  /-- The handler of a delivery fails. -/
  | handlerFailed (delivery : Nat) (thrown : Value)
  deriving Repr, Inhabited

namespace Event

/-- The number under which an event issues a request. -/
def issued? : Event → Option Nat
  | issue call _ => some call
  | _ => none

/-- The message that the client hands over. -/
def message? : Event → Option Message
  | handed _ message => some message
  | _ => none

/-- The consumer that a request asks for. -/
def subscription? : Event → Option Subscription
  | issue call (.consume queue options) => some ⟨call, queue, Channel.ackModeOf options⟩
  | _ => none

end Event

/-- What the adapter is asked for with an effect of the channel. -/
def passed? : Channel.Effect → Option Client.Event
  | .ask call p => some (.issue call p)
  | _ => none

/-- What the adapter hears with an event. -/
def forwarded (s : Session) : Event → List Client.Event
  | .issue call r => (s.machine.step (.issue call r)).2.filterMap passed?
  | .replied call o => [.answered call o]
  | .handed consumer message => [.handed consumer message]
  | .dropped consumer => [.dropped consumer]
  | .closed error => [.closed error]
  | .failed error => [.failed error]
  | _ => []

/-- What the channel is told by an effect of the adapter. -/
def news? (s : Session) : Client.Effect → Option Channel.Event
  | .deliver consumer message =>
    s.subscriptions[consumer]?.map fun sub => .arrived sub.call sub.mode message
  | .cancelled consumer tag =>
    s.subscriptions[consumer]?.map fun sub => .cancelled tag sub.queue
  | .lost _ error => some (.lost error)
  | _ => none

/-- What its callers, its handlers and its own calls in flight do to the channel with an event. -/
def own (s : Session) : Event → List Channel.Event
  | .issue call r => [.issue call r]
  | .answered call =>
    ((s.outcomes.find? (·.1 == call)).map fun o => .answered call o.2).toList
  | .heard call => [.heard call]
  | .turn => [.turn]
  | .handlerFailed d thrown => [.handlerFailed d thrown]
  | _ => []

/-- What the adapter does with an event. -/
def carried (s : Session) (e : Event) : Client.Adapter × List Client.Effect :=
  s.adapter.run (s.forwarded e)

/-- What happens to the channel with an event. -/
def told (s : Session) (e : Event) : List Channel.Event :=
  s.own e ++ (s.carried e).2.filterMap s.news?

/-- The client's calls with an event. -/
def calls (s : Session) (e : Event) : List Client.Call := Client.called (s.carried e).2

/-- The outcomes that go on waiting with an event. -/
def waiting (s : Session) : Event → List (Nat × Channel.Outcome)
  | .answered call => s.outcomes.filter (·.1 != call)
  | _ => s.outcomes

/-- One step of a session. -/
def step (s : Session) (e : Event) : Session where
  machine := (s.machine.run (s.told e)).1
  adapter := (s.carried e).1
  subscriptions :=
    s.subscriptions ++ if (s.forwarded e).isEmpty then [] else e.subscription?.toList
  outcomes := s.waiting e ++ Client.ended (s.carried e).2

/-- A session that has just been opened: the adapter tells the channel when it is gone. -/
def opened (id : String) : Session where
  machine := Channel.opened id
  adapter := (({} : Client.Adapter).step (.listen 0)).1

/-- The session after a run. -/
def reached (id : String) (events : List Event) : Session := events.foldl step (opened id)

/-- The client's calls in a run, from a session on. -/
def callsFrom (s : Session) : List Event → List Client.Call
  | [] => []
  | e :: rest => s.calls e ++ (s.step e).callsFrom rest

/-- The client's calls in a run, in order. -/
def called (id : String) (events : List Event) : List Client.Call := (opened id).callsFrom events

@[simp] theorem reached_nil (id : String) : reached id [] = opened id := rfl

/-- The last event of a run is one step. -/
theorem reached_concat (id : String) (u : List Event) (e : Event) :
    reached id (u ++ [e]) = (reached id u).step e := by
  rw [reached, List.foldl_append]
  rfl

/-- The calls of a run are those of its parts. -/
theorem callsFrom_append (s : Session) (u v : List Event) :
    s.callsFrom (u ++ v) = s.callsFrom u ++ (u.foldl step s).callsFrom v := by
  induction u generalizing s with
  | nil => rfl
  | cons e u ih => simp only [List.cons_append, callsFrom, ih, List.foldl_cons, List.append_assoc]

/-- The last event of a run adds its calls. -/
theorem called_concat (id : String) (u : List Event) (e : Event) :
    called id (u ++ [e]) = called id u ++ (reached id u).calls e := by
  rw [called, callsFrom_append]
  simp only [callsFrom, List.append_nil]
  rfl

/-- The event is neither a request nor an answer nor a message. -/
def IsAside : Channel.Event → Prop
  | .heard _ => True
  | .lost _ => True
  | .turn => True
  | .handlerFailed .. => True
  | .cancelled .. => True
  | _ => False

/-- What a step makes of a session, and which calls the client gets. -/
inductive Transition (s : Session) : Event → Session → List Client.Call → Prop where
  /-- A request is issued that the channel passes on to nobody. -/
  | kept {call : Nat} {r : Channel.Request}
      (hquiet : Channel.Quiet (s.machine.step (.issue call r)).2) :
      Transition s (.issue call r) { s with machine := (s.machine.step (.issue call r)).1 } []
  /-- A request is issued that the channel passes on. -/
  | asked {call : Nat} {r : Channel.Request} {c : Channel.Call} {p : Channel.Primitive}
      (hasks : Channel.Asks s.machine (.issue call r) c p) (hid : c.id = call)
      (hcalls : (s.machine.step (.issue call r)).1.calls = s.machine.calls ++ [c]) :
      Transition s (.issue call r)
        { machine := (s.machine.step (.issue call r)).1
          adapter := (s.adapter.issue call p).1
          subscriptions := s.subscriptions ++ (Event.issue call r).subscription?.toList
          outcomes := s.outcomes ++ Client.ended (s.adapter.issue call p).2 }
        (Client.called (s.adapter.issue call p).2)
  /-- The client answers a primitive that waits. -/
  | replied {call : Nat} {o : Channel.Outcome} {p : Client.Pending}
      (hp : s.adapter.pending.find? (·.id == call) = some p) :
      Transition s (.replied call o)
        { s with
          adapter := ({ s.adapter with
            pending := s.adapter.pending.filter (·.id != call) }.answer p o).1
          outcomes := s.outcomes ++ [(call, Client.Adapter.conclusion p o)] }
        []
  /-- The channel hears what a primitive came to. -/
  | answered {call : Nat} {o : Channel.Outcome} (ho : (call, o) ∈ s.outcomes)
      (hfind : s.outcomes.find? (·.1 == call) = some (call, o)) :
      Transition s (.answered call)
        { s with
          machine := (s.machine.step (.answered call o)).1
          outcomes := s.outcomes.filter (·.1 != call) }
        []
  /-- The client hands a message to a consumer. -/
  | handed {consumer : Nat} {message : Message} {c : Client.Consumer}
      (hc : s.adapter.consumers[consumer]? = some c) (hdetached : s.adapter.detached = false) :
      Transition s (.handed consumer message)
        { s with
          machine := (s.machine.run (((s.adapter.hand consumer message).2).filterMap s.news?)).1
          adapter := (s.adapter.hand consumer message).1 }
        []
  /-- Something else happens. -/
  | aside {e : Event} {events : List Channel.Event} {tags : List Client.Started}
      {listeners : List Nat} (hevents : ∀ f ∈ events, IsAside f) :
      Transition s e
        { s with
          machine := (s.machine.run events).1
          adapter := { s.adapter with tags, listeners } }
        []

variable {s : Session}

/-- What is no news tells the channel nothing. -/
theorem filterMap_news?_eq_nil {effects : List Client.Effect}
    (h : ∀ f ∈ effects, f.isNews = false) : effects.filterMap s.news? = [] := by
  rw [List.filterMap_eq_nil_iff]
  intro f hf
  cases f with
  | deliver | cancelled | lost => exact nomatch h _ hf
  | _ => rfl

/-- An adapter that hears one thing makes one step. -/
theorem adapter_run_singleton (a : Client.Adapter) (e : Client.Event) :
    a.run [e] = a.step e := by
  simp [Client.Adapter.run]

/-- A channel that is told one thing makes one step. -/
theorem machine_run_singleton (m : Channel.Machine) (e : Channel.Event) :
    (m.run [e]).1 = (m.step e).1 := rfl

/-- Nothing is passed on where nothing is asked. -/
theorem filterMap_passed?_of_quiet {effects : List Channel.Effect} (h : Channel.Quiet effects) :
    effects.filterMap passed? = [] := by
  rw [List.filterMap_eq_nil_iff]
  intro f hf
  cases f with
  | ask call p => exact absurd hf (h.not_ask call p)
  | _ => rfl

/-- What a request makes of a session. -/
theorem issue_transition (s : Session) (call : Nat) (r : Channel.Request) :
    Transition s (.issue call r) (s.step (.issue call r)) (s.calls (.issue call r)) := by
  rcases Channel.Machine.asksOnce_step s.machine call r with hquiet | ⟨c, p, hasks, hissued, hcalls,
    heffects⟩
  · have hforwarded : s.forwarded (.issue call r) = [] := filterMap_passed?_of_quiet hquiet
    have hcarried : s.carried (.issue call r) = (s.adapter, []) := by
      rw [carried, hforwarded]
      rfl
    have hstep : s.step (.issue call r) =
        { s with machine := (s.machine.step (.issue call r)).1 } := by
      simp [step, told, own, waiting, hcarried, hforwarded, machine_run_singleton, Client.ended]
    have hnone : s.calls (.issue call r) = [] := by
      rw [calls, hcarried]
      rfl
    rw [hstep, hnone]
    exact .kept hquiet
  · obtain rfl : c.id = call := Option.some.inj hissued.symm
    have hforwarded : s.forwarded (.issue c.id r) = [.issue c.id p] := by
      rw [forwarded, heffects]
      rfl
    have hcarried : s.carried (.issue c.id r) = s.adapter.issue c.id p := by
      rw [carried, hforwarded, adapter_run_singleton]
      rfl
    have hnews : (s.adapter.issue c.id p).2.filterMap s.news? = [] := by
      cases Client.Adapter.issued_issue s.adapter c.id p with
      | passed _ _ _ _ _ hnews => exact filterMap_news?_eq_nil hnews
      | refused _ _ _ _ hnews => exact filterMap_news?_eq_nil hnews
    have hstep : s.step (.issue c.id r) =
        { machine := (s.machine.step (.issue c.id r)).1
          adapter := (s.adapter.issue c.id p).1
          subscriptions := s.subscriptions ++ (Event.issue c.id r).subscription?.toList
          outcomes := s.outcomes ++ Client.ended (s.adapter.issue c.id p).2 } := by
      simp [step, told, own, waiting, hcarried, hforwarded, hnews, machine_run_singleton]
    have hcalled : s.calls (.issue c.id r) = Client.called (s.adapter.issue c.id p).2 := by
      rw [calls, hcarried]
    rw [hstep, hcalled]
    exact .asked hasks rfl hcalls

/-- A step with an event that asks for no consumer. -/
theorem step_of_carried {e : Event} {r : Client.Adapter × List Client.Effect}
    (hcarried : s.carried e = r) (hsub : e.subscription? = none) :
    s.step e =
      { machine := (s.machine.run (s.own e ++ r.2.filterMap s.news?)).1
        adapter := r.1
        subscriptions := s.subscriptions
        outcomes := s.waiting e ++ Client.ended r.2 } := by
  simp [step, told, hcarried, hsub]

/-- A step in which the adapter only tells of something is an aside. -/
theorem transition_of_aside (tags : List Client.Started) (listeners : List Nat) {e : Event}
    {effects : List Client.Effect}
    (hcarried : s.carried e = ({ s.adapter with tags, listeners }, effects))
    (hsub : e.subscription? = none) (hown : ∀ f ∈ s.own e, IsAside f)
    (hwaiting : s.waiting e = s.outcomes)
    (heffects : ∀ f ∈ effects, f.called? = none ∧ f.ended? = none ∧
      ∀ consumer message, f ≠ .deliver consumer message) :
    Transition s e (s.step e) (s.calls e) := by
  have hended : Client.ended effects = [] :=
    List.filterMap_eq_nil_iff.mpr fun f hf => (heffects f hf).2.1
  have hcalled : Client.called effects = [] :=
    List.filterMap_eq_nil_iff.mpr fun f hf => (heffects f hf).1
  have hcalls : s.calls e = Client.called effects := by rw [calls, hcarried]
  rw [step_of_carried hcarried hsub, hcalls, hwaiting, hended, hcalled, List.append_nil]
  refine .aside ?_
  intro f hf
  rcases List.mem_append.mp hf with hf | hf
  · exact hown f hf
  · obtain ⟨g, hg, hnews⟩ := List.mem_filterMap.mp hf
    cases g with
    | deliver consumer message => exact absurd rfl ((heffects _ hg).2.2 consumer message)
    | cancelled consumer tag =>
      obtain ⟨sub, _, rfl⟩ := Option.map_eq_some_iff.mp hnews
      exact trivial
    | lost listener error =>
      obtain rfl := Option.some.inj hnews
      exact trivial
    | _ => exact nomatch hnews

/-- What an answer of the client makes of a session. -/
theorem replied_transition (s : Session) (call : Nat) (o : Channel.Outcome) :
    Transition s (.replied call o) (s.step (.replied call o)) (s.calls (.replied call o)) := by
  have hcarried : s.carried (.replied call o) = s.adapter.step (.answered call o) :=
    adapter_run_singleton s.adapter _
  cases hp : s.adapter.pending.find? (·.id == call) with
  | none =>
    have hnone : s.carried (.replied call o) =
        ({ s.adapter with tags := s.adapter.tags, listeners := s.adapter.listeners }, []) := by
      rw [hcarried]
      simp only [Client.Adapter.step, hp]
    exact transition_of_aside _ _ hnone rfl (List.forall_mem_nil _) rfl (List.forall_mem_nil _)
  | some p =>
    have hid : p.id = call := by simpa using List.find?_some hp
    have hanswer := Client.Adapter.answered_answer
      { s.adapter with pending := s.adapter.pending.filter (·.id != call) } p o
    have hstep := Client.Adapter.step_answered hp o
    have hcalls : s.calls (.replied call o) = [] := by
      rw [calls, hcarried, hstep]
      exact hanswer.called
    rw [step_of_carried (hcarried.trans hstep) rfl, hcalls, hanswer.ended, hid,
      filterMap_news?_eq_nil hanswer.news]
    exact .replied hp

/-- What a session makes of a message that the client hands over. -/
theorem handed_transition (s : Session) (consumer : Nat) (message : Message) :
    Transition s (.handed consumer message) (s.step (.handed consumer message))
      (s.calls (.handed consumer message)) := by
  have hcarried : s.carried (.handed consumer message) = s.adapter.hand consumer message :=
    adapter_run_singleton s.adapter _
  have hidle (hsame : s.adapter.hand consumer message = (s.adapter, [])) :
      Transition s (.handed consumer message) (s.step (.handed consumer message))
        (s.calls (.handed consumer message)) :=
    transition_of_aside s.adapter.tags s.adapter.listeners
      (hcarried.trans hsame) rfl (fun _ h => nomatch h) rfl fun _ h => nomatch h
  cases hc : s.adapter.consumers[consumer]? with
  | none => exact hidle (by simp only [Client.Adapter.hand, hc])
  | some c =>
    cases hdetached : s.adapter.detached with
    | true => exact hidle (by simp [Client.Adapter.hand, hc, hdetached])
    | false =>
      have heffects : Client.ended (s.adapter.hand consumer message).2 = [] ∧
          Client.called (s.adapter.hand consumer message).2 = [] := by
        simp only [Client.Adapter.hand, hc, hdetached]
        cases Properties.incoming message.properties <;> exact ⟨rfl, rfl⟩
      have hcalls : s.calls (.handed consumer message) = [] := by
        rw [calls, hcarried]
        exact heffects.2
      rw [step_of_carried hcarried rfl, hcalls, heffects.1]
      simp only [own, waiting, List.nil_append, List.append_nil]
      exact .handed hc hdetached

/-- The list of what a step makes of a session is complete. -/
theorem step_transition (s : Session) (e : Event) : Transition s e (s.step e) (s.calls e) := by
  have halone {e : Event} (hforwarded : s.forwarded e = []) (hsub : e.subscription? = none)
      (hown : ∀ f ∈ s.own e, IsAside f) (hwaiting : s.waiting e = s.outcomes) :
      Transition s e (s.step e) (s.calls e) := by
    have hcarried : s.carried e = (s.adapter, []) := by
      rw [carried, hforwarded]
      rfl
    exact transition_of_aside s.adapter.tags s.adapter.listeners hcarried
      hsub hown hwaiting (List.forall_mem_nil _)
  cases e with
  | issue call r => exact issue_transition s call r
  | replied call o => exact replied_transition s call o
  | handed consumer message => exact handed_transition s consumer message
  | answered call =>
    cases hfind : s.outcomes.find? (·.1 == call) with
    | none =>
      have hown : s.own (.answered call) = [] := by simp only [own, hfind]; rfl
      have hwaiting : s.waiting (.answered call) = s.outcomes := by
        refine List.filter_eq_self.mpr fun o ho => ?_
        simpa using List.find?_eq_none.mp hfind o ho
      exact halone rfl rfl (by rw [hown]; exact List.forall_mem_nil _) hwaiting
    | some o =>
      obtain ⟨call', o⟩ := o
      obtain rfl : call' = call := by simpa using List.find?_some hfind
      have hown : s.own (.answered call') = [.answered call' o] := by simp only [own, hfind]; rfl
      have hcarried : s.carried (.answered call') = (s.adapter, []) := rfl
      have hcalls : s.calls (.answered call') = [] := rfl
      rw [step_of_carried hcarried rfl, hown, hcalls]
      simp only [List.filterMap_nil, List.append_nil, waiting, Client.ended,
        machine_run_singleton]
      exact .answered (List.mem_of_find?_eq_some hfind) hfind
  | heard call | turn | handlerFailed d thrown =>
    exact halone rfl rfl (by simp [own, IsAside]) rfl
  | dropped consumer =>
    have hcarried : s.carried (.dropped consumer) = s.adapter.step (.dropped consumer) :=
      adapter_run_singleton s.adapter _
    cases hc : s.adapter.consumers[consumer]? with
    | none =>
      have hstep : s.adapter.step (.dropped consumer) = (s.adapter, []) := by
        simp only [Client.Adapter.step, hc]
      exact transition_of_aside s.adapter.tags s.adapter.listeners
        (hcarried.trans hstep) rfl (List.forall_mem_nil _) rfl (List.forall_mem_nil _)
    | some c =>
      have hstep : s.adapter.step (.dropped consumer) =
          ({ s.adapter with tags := Client.Adapter.dropConsumer s.adapter.tags ⟨c.tag, consumer⟩ },
            [.cancelled consumer c.tag]) := by
        simp only [Client.Adapter.step, hc]
      exact transition_of_aside _ s.adapter.listeners (hcarried.trans hstep) rfl
        (List.forall_mem_nil _) rfl (by simp [Client.Effect.called?, Client.Effect.ended?])
  | closed error =>
    have hcarried : s.carried (.closed error) = s.adapter.step (.closed error) :=
      adapter_run_singleton s.adapter _
    exact transition_of_aside s.adapter.tags _ hcarried rfl (List.forall_mem_nil _) rfl
      (by simp [Client.Effect.called?, Client.Effect.ended?])
  | failed error =>
    have hcarried : s.carried (.failed error) = s.adapter.step (.failed error) :=
      adapter_run_singleton s.adapter _
    have hstep : s.adapter.step (.failed error) =
        (s.adapter, if error.isGiven then [.log (Client.Adapter.errorEntry error)]
          else [.broke (missingFieldFault error "message")]) := by
      simp only [Client.Adapter.step]
      split <;> rfl
    refine transition_of_aside s.adapter.tags s.adapter.listeners
      (hcarried.trans hstep) rfl (List.forall_mem_nil _) rfl ?_
    split <;> simp [Client.Effect.called?, Client.Effect.ended?]

end Session

end Amqp
