import Amqp.Proofs.Hub.Ties

/-!
# How the channels of a hub hang together with the broker

At every moment of a run every channel of a hub is tied to the broker's end of it, and the broker's
ends that have no channel yet are as the broker made them, but for the end of the connection. A step
first changes one channel, then the broker, then the channels that hear what the broker tells.
-/

namespace Amqp.Hub

open Channel (Machine)
open Broker (Tally)

/-- What ties the channels of a hub to the broker, if some of them have missed their ends. -/
structure Linked (h : Hub) (missed : List Nat) : Prop where
  ties : Ties missed h.lines h.broker.tallies
  /-- A channel that is not there yet was handed nothing, and has ended if it missed its end. -/
  untouched : ∀ ch t, h.lines.length ≤ ch → h.broker.tallies[ch]? = some t →
    t = { closed := decide (ch ∈ missed) }
  /-- The broker has made its ends of the channels that are there and of those being opened. -/
  counted : h.broker.tallies.length = h.lines.length + h.openings.countP opens
  known : ∀ ch ∈ missed, ch < h.broker.tallies.length
  serves : h.broker.Serves (h.Attends missed)
  named : h.broker.Named

/-- A request comes under a number that no call in flight and no consumer has. -/
def Event.NewFor (e : Event) (h : Hub) : Prop :=
  ∀ call, e.issued? = some call →
    (∀ l ∈ h.lines, ∀ c ∈ l.machine.calls, c.id ≠ call) ∧ ∀ s ∈ h.subscriptions, s.call ≠ call

/-- If the event closes or aborts a channel with parameters, the code and the reason have texts. -/
def Event.IsWorded : Event → Prop
  | .issue _ _ (.close params) => (Broker.callText "close" (Channel.truthy? params)).isOk = true
  | .issue _ _ (.abort params) => (Broker.callText "abort" (Channel.truthy? params)).isOk = true
  | _ => True

/-- A close or an abort without parameters, or with a number and a text, is worded. -/
theorem Event.isWorded_of_given {ch call : Nat} {params : Value}
    (hgiven : params = .undefined ∨
      ∃ n s, params.field "code" = .number n ∧ params.field "reason" = .text s) :
    (issue ch call (.close params)).IsWorded ∧ (issue ch call (.abort params)).IsWorded := by
  have htexts (verb : String) : (Broker.callText verb (Channel.truthy? params)).isOk = true := by
    rcases hgiven with rfl | ⟨n, s, hcode, hreason⟩
    · rfl
    · rw [Channel.truthy?]
      split
      · simp only [Broker.callText, hcode, hreason]
        rfl
      · rfl
  exact ⟨htexts "close", htexts "abort"⟩

variable {h : Hub} {e : Event} {ch call : Nat} {l : Line} {r : Channel.Request}
  {c : Channel.Call} {p : Channel.Primitive} {missed : List Nat}

/-! ## Requests -/

/-- What the broker is not asked for is an affair of the channels. -/
theorem step_of_unforwarded (hforwarded : h.forwarded? e = none) (hopened : e ≠ .opened) :
    h.step e = h.started e := by
  cases e with
  | opened => exact absurd rfl hopened
  | opening | serve | disconnect | refuseNext => cases hforwarded
  | _ =>
    simp only [step, response, hforwarded, started, concluded, modifyLine, List.foldl_nil,
      Option.isSome_none, Bool.false_eq_true, if_false]

/-- What callers, handlers and calls in flight do to a channel. -/
theorem step_of_tells {f : Channel.Event}
    (he : (∃ call, e = .heard ch call ∧ f = .heard call) ∨ e = .turn ch ∧ f = .turn ∨
      ∃ d thrown, e = .handlerFailed ch d thrown ∧ f = .handlerFailed d thrown) :
    h.step e = h.modifyLine ch (·.tell f) := by
  rcases he with ⟨call, rfl, rfl⟩ | ⟨rfl, rfl⟩ | ⟨d, thrown, rfl, rfl⟩
  all_goals
    rw [step_of_unforwarded rfl (by rintro ⟨⟩)]
    simp only [started, Event.subscription?, Option.toList_none, List.append_nil]

theorem step_answered (h : Hub) (ch call : Nat) :
    h.step (.answered ch call) = h.modifyLine ch (·.answer call) := by
  rw [step_of_unforwarded rfl (by rintro ⟨⟩)]
  simp only [started, Event.subscription?, Option.toList_none, List.append_nil]

/-- What the broker does of itself is heard by the channels. -/
theorem step_of_forwarded {f : Broker.Event} (hforwarded : h.forwarded? e = some f)
    (hissued : e.issued? = none) (hopening : e ≠ .opening) :
    h.step e =
      (h.broker.step f).effects.foldl hear { h with broker := (h.broker.step f).broker } := by
  cases e with
  | opening => exact absurd rfl hopening
  | issue => cases hissued
  | serve | disconnect | refuseNext =>
    cases hforwarded
    simp only [step, response, forwarded?, started, concluded, Event.subscription?,
      Option.toList_none, List.append_nil]
  | _ => cases hforwarded

/-- A request of a channel that is not there is nobody's. -/
theorem step_issue_of_none (hl : h.lines[ch]? = none) (call : Nat) (r : Channel.Request) :
    h.step (.issue ch call r) = h.started (.issue ch call r) := by
  refine step_of_unforwarded ?_ (by rintro ⟨⟩)
  simp only [forwarded?, hl, Option.bind_eq_bind, Option.bind_none]

/-- A request that a channel passes on to nobody. -/
theorem step_issue_of_quiet (hl : h.lines[ch]? = some l)
    (hquiet : Channel.Quiet (l.machine.step (.issue call r)).2) :
    h.step (.issue ch call r) = h.started (.issue ch call r) := by
  refine step_of_unforwarded ?_ (by rintro ⟨⟩)
  simp only [forwarded?, hl, Option.bind_eq_bind, Option.bind_some]
  rw [List.findSome?_eq_none_iff]
  intro f hf
  cases f with
  | ask call' p => exact absurd hf (hquiet.not_ask call' p)
  | _ => rfl

/-- A request that a channel passes on to the broker. -/
theorem step_issue_of_asks (hl : h.lines[ch]? = some l)
    (heffects : (l.machine.step (.issue call r)).2 = [.ask call p])
    {x : Broker.Response} (hx : h.broker.request ch call p = x) :
    h.step (.issue ch call r) =
      (x.effects.foldl hear { h.started (.issue ch call r) with broker := x.broker }).modifyLine ch
        (·.await call x.outcome) := by
  have hforwarded : h.forwarded? (.issue ch call r) = some (.request ch call p) := by
    simp only [forwarded?, hl, Option.bind_eq_bind, Option.bind_some, heffects]
    rfl
  simp only [step, response, hforwarded, concluded, Option.isSome_some, if_true, Broker.step, hx]

/-- A channel that is asked for its end in words passes the words on. -/
theorem isWorded_of_asks {m : Machine} (hasks : Channel.Asks m (.issue call r) c p)
    (hworded : (Event.issue ch call r).IsWorded) : Broker.IsWorded p := by
  cases hasks with
  | operation hp =>
    cases r with
    | settle => cases hp
    | close params | abort params =>
      obtain rfl := Option.some.inj hp
      exact hworded
    | _ =>
      obtain rfl := Option.some.inj hp
      trivial
  | @settlement _ _ _ s => cases s <;> trivial

/-- A channel that hears of its own request, and then waits for what comes of it. -/
theorem modify_tell_await (lines : List Line) (ch call : Nat) (r : Channel.Request)
    (o : Channel.Outcome) :
    (lines.modify ch (·.tell (.issue call r))).modify ch (·.await call o) =
      lines.modify ch fun l => (l.tell (.issue call r)).await call o :=
  List.modify_modify_eq ..

/-- The broker has made an end of every channel. -/
theorem Linked.length_le (hlinked : h.Linked missed) :
    h.lines.length ≤ h.broker.tallies.length := by
  rw [hlinked.counted]
  exact Nat.le_add_right ..

/-- The parts of every channel hang together. -/
theorem Linked.exists_sound (hlinked : h.Linked missed) (hl : h.lines[ch]? = some l) :
    ∃ next, l.Sound next := by
  have hlt := Nat.lt_of_lt_of_le (List.getElem?_eq_some_iff.mp hl).1 hlinked.length_le
  exact (hlinked.ties ch l _ hl (List.getElem?_eq_getElem hlt)).exists_sound

/-- The channels keep up with the broker when one of them asks for its end. -/
theorem Linked.ties_finish (hlinked : h.Linked missed) (hl : h.lines[ch]? = some l)
    (hpasses : l.Passes call r c p) (hend : p.IsEnd) {x : Broker.Response}
    (hending : Broker.Ending h.broker ch x) :
    Ties missed
      ((x.effects.foldl hear { h.started (.issue ch call r) with broker := x.broker }).lines.modify
        ch (·.await call x.outcome)) x.broker.tallies := by
  have hrequest : r.IsEnd := (isEnd_iff_of_asks hpasses.asks).mp hend
  cases hending with
  | @ended reply hopen ho heffects htallies =>
    -- the report of the end reaches a channel that is closing or closed already
    have hlost : (h.lines.modify ch (·.tell (.issue call r))).modify ch (·.tell (.lost none)) =
        h.lines.modify ch (·.tell (.issue call r)) := by
      rw [List.modify_modify_eq]
      congr 1
      funext l
      exact Line.tell_lost_of_end hrequest none
    rw [heffects, htallies, ho]
    simp only [List.foldl_cons, List.foldl_nil, hear, started, modifyLine, hlost,
      modify_tell_await]
    refine hlinked.ties.modify fun l' t hl' ht hone => ?_
    obtain rfl := Option.some.inj (hl.symm.trans hl')
    obtain ⟨hm, hpaired⟩ := hone.of_open (hopen t ht)
    exact .paired hm (hpaired.finish hpasses hend rfl rfl fun _ => ⟨reply, rfl⟩)
  | @refused thrown hclosed ho heffects htallies =>
    rw [heffects, htallies, ho]
    simp only [List.foldl_nil, started, modifyLine, modify_tell_await]
    refine hlinked.ties.modify_left fun l' t hl' ht hone => ?_
    obtain rfl := Option.some.inj (hl.symm.trans hl')
    refine hone.imp (fun hpaired => ?_) fun hsevered => hsevered.asked hpasses none
    refine hpaired.finish hpasses hend rfl (hclosed t ht) fun hopen => ?_
    rw [hclosed t ht] at hopen
    cases hopen

/-- The channels keep up with the broker when one of them asks for something else, which the broker
tells no channel of. -/
theorem Linked.ties_quietly (hlinked : h.Linked missed) (hl : h.lines[ch]? = some l)
    (hpasses : l.Passes call r c p) (hend : ¬p.IsEnd) {x : Broker.Response}
    {settled : Option (Nat × Bool)}
    (htallies : x.broker.tallies = h.broker.tallies.modify ch (granting · settled))
    (hcancelled : ∀ f ∈ x.effects, f.isCancellation = true)
    (hreplied : ∀ reply, x.outcome = .replied reply → settled = p.settles?)
    (hthrew : ∀ thrown, x.outcome = .threw thrown → settled = none) :
    Ties missed
      ((x.effects.foldl hear { h.started (.issue ch call r) with broker := x.broker }).lines.modify
        ch (·.await call x.outcome)) x.broker.tallies := by
  rw [foldl_hear_of_cancellations _ hcancelled, htallies]
  simp only [started, modifyLine, modify_tell_await]
  refine hlinked.ties.modify fun l' t hl' _ hone => ?_
  obtain rfl := Option.some.inj (hl.symm.trans hl')
  exact hone.imp (·.asked hpasses hend hreplied hthrew) (·.asked hpasses settled)

/-- The channels keep up with the broker when one of them passes a request on. -/
theorem Linked.ties_passes (hlinked : h.Linked missed) (hl : h.lines[ch]? = some l)
    (hpasses : l.Passes call r c p) (hworded : (Event.issue ch call r).IsWorded)
    {x : Broker.Response} (hx : h.broker.request ch call p = x) :
    Ties missed
      ((x.effects.foldl hear { h.started (.issue ch call r) with broker := x.broker }).lines.modify
        ch (·.await call x.outcome)) x.broker.tallies := by
  have hsame : h.broker.tallies = h.broker.tallies.modify ch (granting · none) :=
    (List.modify_id ..).symm
  by_cases hend : p.IsEnd
  · refine hlinked.ties_finish hl hpasses hend (hx ▸ ?_)
    exact Broker.ending_request hend (isWorded_of_asks hpasses.asks hworded)
  · have hasks := hpasses.asks
    cases hasks with
    | operation hp =>
      have hsettle := (Session.delivery?_of_primitive? hp).2
      have haside : Broker.Aside h.broker x := hx ▸ Broker.aside_request hend hsettle
      refine hlinked.ties_quietly hl hpasses hend (haside.tallies.trans hsame) haside.effects
        (fun _ _ => ?_) fun _ _ => rfl
      cases p with
      | basicAck | basicNack => exact absurd trivial hsettle
      | _ => rfl
    | @settlement _ d n s multiple requeue =>
      have hsettled := Broker.settled_request h.broker ch call n s
        (multiple.ifDefined (.bool false)) (requeue.ifDefined (.bool true))
      rw [hx] at hsettled
      cases hsettled with
      | @accepted reply ho heffects htallies =>
        have hgranted : x.broker.tallies = h.broker.tallies.modify ch
            (granting · (some (n, (multiple.ifDefined (.bool false)).isTruthy))) := htallies
        refine hlinked.ties_quietly hl hpasses hend hgranted ?_ (fun _ _ => ?_) fun _ hthrew => ?_
        · rw [heffects]
          exact List.forall_mem_nil _
        · exact (Channel.Request.settles?_settlePrimitive ..).symm
        · rw [ho] at hthrew
          cases hthrew
      | @refused thrown ho heffects htallies =>
        refine hlinked.ties_quietly hl hpasses hend (htallies.trans hsame) ?_
          (fun _ hreply => ?_) fun _ _ => rfl
        · rw [heffects]
          exact List.forall_mem_nil _
        · rw [ho] at hreply
          cases hreply

/-- A channel that is asked for its end always asks the broker. -/
theorem not_isEnd_of_quiet {m : Machine} (hquiet : Channel.Quiet (m.step (.issue call r)).2) :
    ¬r.IsEnd := by
  intro hend
  cases r with
  | close params => exact hquiet.not_ask call _ (List.mem_singleton_self _)
  | abort params => exact hquiet.not_ask call _ (List.mem_singleton_self _)
  | _ => exact hend

/-- The channels keep up with the broker when one of them is asked for something. -/
theorem Linked.ties_issue (hlinked : h.Linked missed) (hnew : (Event.issue ch call r).NewFor h)
    (hworded : (Event.issue ch call r).IsWorded) :
    Ties missed (h.step (.issue ch call r)).lines (h.step (.issue ch call r)).broker.tallies := by
  cases hl : h.lines[ch]? with
  | none =>
    have hsame : h.lines.modify ch (·.tell (.issue call r)) = h.lines :=
      List.modify_eq_self (List.getElem?_eq_none_iff.mp hl)
    rw [step_issue_of_none hl call r]
    simp only [started, modifyLine, hsame]
    exact hlinked.ties
  | some l =>
    have hnewl : (Channel.Event.issue call r).NewFor l.machine := by
      rintro _ ⟨⟩ c hc
      exact (hnew call rfl).1 l (List.mem_of_getElem? hl) c hc
    rcases Machine.asksOnce_step l.machine call r with
      hquiet | ⟨c, p, hasks, hissued, hcalls, heffects⟩
    · rw [step_issue_of_quiet hl hquiet]
      simp only [started, modifyLine]
      refine hlinked.ties.modify_left fun l' t hl' _ hone => ?_
      obtain rfl := Option.some.inj (hl.symm.trans hl')
      exact hone.imp (·.tell_issue hnewl (not_isEnd_of_quiet hquiet))
        (·.tell hnewl rfl (by rintro _ _ ⟨⟩))
    · obtain rfl : c.id = call := Option.some.inj hissued.symm
      rw [step_issue_of_asks hl heffects rfl]
      simp only [modifyLine, (hears_foldl _ _).broker]
      exact hlinked.ties_passes hl ⟨hnewl, hasks, rfl, hcalls⟩ hworded rfl

/-! ## Openings -/

/-- How a hub goes on when whoever has waited longest for a channel hears what came of it. -/
inductive Enrolls (h : Hub) : Hub → Prop where
  | nobody (hnone : h.openings = []) : Enrolls h h
  | opened {reply : Value} {rest : List Channel.Outcome}
      (hopenings : h.openings = .replied reply :: rest) :
      Enrolls h { h with
        broker := h.broker.issue
        lines := h.lines ++ [{ machine := Channel.opened h.broker.nextIdentity }]
        openings := rest }
  | refused {thrown : Value} {rest : List Channel.Outcome}
      (hopenings : h.openings = .threw thrown :: rest) : Enrolls h { h with openings := rest }

theorem enrolls_enroll (h : Hub) : Enrolls h h.enroll := by
  rw [enroll]
  cases hopenings : h.openings with
  | nil => exact .nobody hopenings
  | cons o rest =>
    cases o with
    | replied reply => exact .opened hopenings
    | threw thrown =>
      simp only [Channel.attempt]
      cases Channel.openError thrown <;> exact .refused hopenings

theorem step_opened (h : Hub) : h.step .opened = h.enroll := by
  simp only [step, response, forwarded?, started, concluded, Event.subscription?,
    Option.toList_none, List.append_nil, List.foldl_nil]

/-- The broker makes its end of a channel, or refuses to. -/
theorem step_opening (h : Hub) :
    h.step .opening = { h with
      broker := h.broker.openNext.broker
      openings := h.openings ++ [h.broker.openNext.outcome] } := by
  simp only [step, response, forwarded?, started, concluded, Event.subscription?, Broker.step,
    Broker.effects_openNext, Option.toList_none, List.append_nil, List.foldl_nil]

/-- Where nobody waits for a channel, an attempt to open one that is refused leaves the channels as
they are. -/
theorem step_opening_opened_of_refusal {error : Value} (hnone : h.openings = [])
    (hrefusal : h.broker.refusal = some error) :
    (h.step .opening).step .opened = { h with broker := { h.broker with refusal := none } } := by
  rw [step_opening, step_opened]
  simp only [Broker.openNext, hrefusal, hnone, List.nil_append, enroll, Channel.attempt]
  cases Channel.openError error <;> rw [← hnone]

/-- Where nobody waits for a channel, one that is opened is there once that is heard of. -/
theorem step_opening_opened (hnone : h.openings = []) (hrefusal : h.broker.refusal = none) :
    (h.step .opening).step .opened = { h with
      broker := ({ h.broker with channels := h.broker.channels ++ [{}] } : Broker).issue
      lines := h.lines ++ [{ machine := Channel.opened h.broker.nextIdentity }] } := by
  rw [step_opening, step_opened]
  simp only [Broker.openNext, hrefusal, hnone, List.nil_append, enroll, Channel.attempt]
  rfl

/-- A channel that has just been opened is tied to the broker's end of it. -/
theorem Linked.ties_opened (hlinked : h.Linked missed) :
    Ties missed (h.step .opened).lines (h.step .opened).broker.tallies := by
  have henrolls := h.enrolls_enroll
  rw [step_opened]
  generalize h.enroll = h' at henrolls ⊢
  cases henrolls with
  | nobody | refused => exact hlinked.ties
  | opened hopenings =>
    refine hlinked.ties.concat fun t ht => ?_
    rw [hlinked.untouched _ t (Nat.le_refl _) ht]
    by_cases hm : h.lines.length ∈ missed
    · rw [decide_eq_true hm]
      exact .severed hm (.opened _)
    · rw [decide_eq_false hm]
      exact .paired hm (.opened _)

/-! ## Steps -/

/-- A call is answered with what is kept for it; otherwise nothing happens. -/
theorem Line.answer_cases (l : Line) (call : Nat) :
    l.answer call = l ∨ ∃ o, (call, o) ∈ l.outcomes := by
  cases hfind : l.outcomes.find? (·.1 == call) with
  | none => exact .inl (by simp only [Line.answer, hfind])
  | some o =>
    have hid : o.1 = call := by simpa using List.find?_some hfind
    exact .inr ⟨o.2, hid ▸ List.mem_of_find?_eq_some hfind⟩

/-- The channels keep up with the broker in every step. -/
theorem Linked.ties_step (hlinked : h.Linked missed) (hnew : e.NewFor h) (hworded : e.IsWorded) :
    Ties missed (h.step e).lines (h.step e).broker.tallies := by
  have hown {ch : Nat} {f : Line → Line} (hpaired : ∀ l t, Paired l t → Paired (f l) t)
      (hsevered : ∀ l t, Severed l t → Severed (f l) t) :
      Ties missed (h.lines.modify ch f) h.broker.tallies :=
    hlinked.ties.modify_left fun l t _ _ hone => hone.imp (hpaired l t) (hsevered l t)
  have htell {ch : Nat} {f : Channel.Event} (hissued : f.issued? = none) (hlabel : f.label? = none)
      (hanswer : ∀ call o, f ≠ .answered call o) (hlost : ∀ error, f ≠ .lost error) :
      Ties missed (h.lines.modify ch (·.tell f)) h.broker.tallies := by
    have hnewl (l : Line) : f.NewFor l.machine := by
      intro call hcall
      rw [hissued] at hcall
      cases hcall
    refine hown (fun l t hone => hone.tell (hnewl l) hlabel hanswer ?_ ?_)
      fun l t hone => hone.tell (hnewl l) hlabel hanswer
    · cases f with
      | issue => cases hissued
      | answered call o => exact absurd rfl (hanswer call o)
      | lost error => exact absurd rfl (hlost error)
      | _ => exact fun h => h
    · rintro call params rfl
      cases hissued
  cases e with
  | opening =>
    rw [step_opening]
    cases Broker.opening_openNext h.broker with
    | refused _ htallies => exact htallies.symm ▸ hlinked.ties
    | made _ htallies => exact htallies.symm ▸ hlinked.ties.append_right hlinked.length_le _
  | opened => exact hlinked.ties_opened
  | issue ch call r => exact hlinked.ties_issue hnew hworded
  | answered ch call =>
    rw [step_answered]
    refine hown (fun l t hone => ?_) fun l t hone => ?_
    · rcases l.answer_cases call with hsame | ⟨o, ho⟩
      · exact hsame.symm ▸ hone
      · exact hone.answered ho
    · rcases l.answer_cases call with hsame | ⟨o, ho⟩
      · exact hsame.symm ▸ hone
      · exact hone.answered ho
  | heard ch call => exact htell rfl rfl (by rintro _ _ ⟨⟩) (by rintro _ ⟨⟩)
  | turn ch => exact htell rfl rfl (by rintro _ _ ⟨⟩) (by rintro _ ⟨⟩)
  | handlerFailed ch d thrown => exact htell rfl rfl (by rintro _ _ ⟨⟩) (by rintro _ ⟨⟩)
  | serve =>
    rw [step_of_forwarded (f := .serve) rfl rfl (by rintro ⟨⟩), (hears_foldl _ _).broker]
    exact Ties.hear (h := { h with broker := _ }) hlinked.ties (Broker.told_serve hlinked.serves)
      fun _ _ _ hattends => hattends.2
  | disconnect error =>
    rw [step_of_forwarded (f := .disconnect error) rfl rfl (by rintro ⟨⟩),
      (hears_foldl _ _).broker]
    have htold : Broker.Told (fun _ _ _ => False) h.broker.tallies
        (h.broker.disconnect error).2 (h.broker.disconnect error).1.tallies :=
      Broker.told_disconnect h.broker error
    exact Ties.hear (h := { h with broker := _ }) hlinked.ties htold fun _ _ _ => False.elim
  | refuseNext error => exact hlinked.ties

theorem subscriptions_step (h : Hub) (e : Event) :
    (h.step e).subscriptions = h.subscriptions ++ e.subscription?.toList := by
  have hstarted : (h.started e).subscriptions = h.subscriptions ++ e.subscription?.toList := by
    cases e <;> rfl
  have hconcluded (h : Hub) (asked : Bool) (o : Channel.Outcome) :
      (h.concluded e asked o).subscriptions = h.subscriptions := by
    cases e with
    | issue =>
      simp only [concluded]
      split <;> rfl
    | opened =>
      simp only [concluded]
      have henrolls := h.enrolls_enroll
      generalize h.enroll = h' at henrolls ⊢
      cases henrolls <;> rfl
    | _ => rfl
  simp only [step, hconcluded, (hears_foldl _ _).subscriptions, hstarted]

/-- The broker makes the step that it is asked for, and may give out an identity. -/
theorem broker_step (h : Hub) (e : Event) :
    ∃ n, (h.step e).broker = { (h.response e).broker with issued := n } := by
  have hconcluded (h : Hub) (asked : Bool) (o : Channel.Outcome) :
      ∃ n, (h.concluded e asked o).broker = { h.broker with issued := n } := by
    cases e with
    | issue =>
      simp only [concluded]
      split <;> exact ⟨_, rfl⟩
    | opened =>
      simp only [concluded]
      have henrolls := h.enrolls_enroll
      generalize h.enroll = h' at henrolls ⊢
      cases henrolls <;> exact ⟨_, rfl⟩
    | _ => exact ⟨_, rfl⟩
  obtain ⟨n, hn⟩ := hconcluded ((h.response e).effects.foldl hear
    { h.started e with broker := (h.response e).broker }) (h.forwarded? e).isSome
      (h.response e).outcome
  rw [(hears_foldl _ _).broker] at hn
  exact ⟨n, hn⟩

theorem tallies_step (h : Hub) (e : Event) :
    (h.step e).broker.tallies = (h.response e).broker.tallies := by
  obtain ⟨n, hbroker⟩ := broker_step h e
  rw [hbroker]
  rfl

/-- No channel comes and nobody asks for one with other events. -/
theorem lines_openings_step (hopening : e ≠ .opening) (hopened : e ≠ .opened) :
    (h.step e).lines.length = h.lines.length ∧ (h.step e).openings = h.openings := by
  have hstarted : (h.started e).lines.length = h.lines.length ∧
      (h.started e).openings = h.openings := by
    cases e with
    | issue | answered | heard | turn | handlerFailed => exact ⟨List.length_modify .., rfl⟩
    | _ => exact ⟨rfl, rfl⟩
  have hconcluded (h : Hub) (asked : Bool) (o : Channel.Outcome) :
      (h.concluded e asked o).lines.length = h.lines.length ∧
        (h.concluded e asked o).openings = h.openings := by
    cases e with
    | opening => exact absurd rfl hopening
    | opened => exact absurd rfl hopened
    | issue ch call r =>
      simp only [concluded]
      split
      · exact ⟨List.length_modify .., rfl⟩
      · exact ⟨rfl, rfl⟩
    | _ => exact ⟨rfl, rfl⟩
  have hhears := hears_foldl { h.started e with broker := (h.response e).broker }
    (h.response e).effects
  obtain ⟨hlength, hopenings⟩ := hconcluded ((h.response e).effects.foldl hear
    { h.started e with broker := (h.response e).broker }) (h.forwarded? e).isSome
      (h.response e).outcome
  exact ⟨hlength.trans (hhears.length.trans hstarted.1),
    hopenings.trans (hhears.openings.trans hstarted.2)⟩

/-- Channels do not go. -/
theorem length_lines_le_step (h : Hub) (e : Event) : h.lines.length ≤ (h.step e).lines.length := by
  by_cases hopened : e = .opened
  · subst hopened
    have henrolls := h.enrolls_enroll
    rw [step_opened]
    generalize h.enroll = h' at henrolls ⊢
    cases henrolls with
    | nobody | refused => exact Nat.le_refl _
    | opened => exact List.length_append ▸ Nat.le_add_right ..
  · by_cases hopening : e = .opening
    · subst hopening
      exact Nat.le_of_eq (congrArg (·.lines.length) h.step_opening).symm
    · exact Nat.le_of_eq (lines_openings_step hopening hopened).1.symm

/-- A consumer that a call asked for is known by its mode, whatever else is asked for later. -/
theorem mode?_step_of_eq_some {number : Nat} {mode : AckMode} (hmode : h.mode? number = some mode) :
    (h.step e).mode? number = some mode := by
  obtain ⟨s, hs, rfl⟩ := Option.map_eq_some_iff.mp hmode
  rw [mode?, subscription?, subscriptions_step, List.find?_append]
  rw [subscription?] at hs
  rw [hs]
  rfl

/-- What the broker is asked for with an event, and by whom. -/
inductive Forwards (h : Hub) : Event → Broker.Event → Prop where
  | opening : Forwards h .opening .openChannel
  | asks {ch call : Nat} {l : Line} {r : Channel.Request} {c : Channel.Call}
      {p : Channel.Primitive} (hl : h.lines[ch]? = some l)
      (hasks : Channel.Asks l.machine (.issue call r) c p) :
      Forwards h (.issue ch call r) (.request ch call p)
  | serve : Forwards h .serve .serve
  | disconnect (error : Value) : Forwards h (.disconnect error) (.disconnect error)
  | refuseNext (error : Value) : Forwards h (.refuseNext error) (.refuseNext error)

theorem forwards_of_eq_some {f : Broker.Event} (hforwarded : h.forwarded? e = some f) :
    h.Forwards e f := by
  cases e with
  | issue ch call r =>
    simp only [forwarded?, Option.bind_eq_bind, Option.bind_eq_some_iff] at hforwarded
    obtain ⟨l, hl, hfind⟩ := hforwarded
    obtain ⟨f, hf, hpassed⟩ := List.exists_of_findSome?_eq_some hfind
    cases f with
    | ask call' p =>
      cases hpassed
      obtain ⟨c, hasks, _, hissued, _⟩ := Machine.asks_of_mem_step hf
      cases hissued
      exact .asks hl hasks
    | _ => cases hpassed
  | opening | serve | disconnect | refuseNext =>
    cases hforwarded
    constructor
  | _ => cases hforwarded

/-- A request of a channel changes the tally of that channel at most. -/
theorem exists_tallies_request {m : Machine} (b : Broker)
    (hasks : Channel.Asks m (.issue call r) c p) (hworded : (Event.issue ch call r).IsWorded) :
    ∃ g, (b.request ch call p).broker.tallies = b.tallies.modify ch g := by
  have hsame (htallies : (b.request ch call p).broker.tallies = b.tallies) :
      ∃ g, (b.request ch call p).broker.tallies = b.tallies.modify ch g :=
    ⟨id, htallies.trans (List.modify_id ..).symm⟩
  by_cases hend : p.IsEnd
  · have hending : Broker.Ending b ch (b.request ch call p) :=
      Broker.ending_request hend (isWorded_of_asks hasks hworded)
    cases hending with
    | ended _ _ _ htallies => exact ⟨.ended, htallies⟩
    | refused _ _ _ htallies => exact hsame htallies
  · cases hasks with
    | operation hp =>
      exact hsame (Broker.aside_request hend (Session.delivery?_of_primitive? hp).2).tallies
    | @settlement _ d n s multiple requeue =>
      cases Broker.settled_request b ch call n s (multiple.ifDefined (.bool false))
          (requeue.ifDefined (.bool true)) with
      | accepted _ _ htallies => exact ⟨(·.settle n _), htallies⟩
      | refused _ _ htallies => exact hsame htallies

/-- The broker makes no end with other events than an opening. -/
theorem length_tallies_step (hworded : e.IsWorded) (hopening : e ≠ .opening) :
    (h.step e).broker.tallies.length = h.broker.tallies.length := by
  rw [tallies_step, response]
  cases hforwarded : h.forwarded? e with
  | none => rfl
  | some f =>
    cases forwards_of_eq_some hforwarded with
    | opening => exact absurd rfl hopening
    | asks hl hasks =>
      obtain ⟨g, htallies⟩ := exists_tallies_request h.broker hasks hworded
      simp only [Broker.step, htallies, List.length_modify]
    | serve =>
      have hserves : h.broker.Serves fun _ _ _ => True := fun _ _ _ _ => trivial
      exact (Broker.told_serve hserves).length_eq
    | disconnect error => simp only [Broker.step, Broker.tallies_disconnect, List.length_map]
    | refuseNext error => rfl

/-- A channel that is not there yet is left alone by everything but a drop of the connection. -/
theorem Linked.getElem?_tallies_step (hlinked : h.Linked missed) (hworded : e.IsWorded)
    (hopening : e ≠ .opening) (hdisconnect : ∀ error, e ≠ .disconnect error)
    (hch : h.lines.length ≤ ch) :
    (h.step e).broker.tallies[ch]? = h.broker.tallies[ch]? := by
  rw [tallies_step, response]
  cases hforwarded : h.forwarded? e with
  | none => rfl
  | some f =>
    cases forwards_of_eq_some hforwarded with
    | opening => exact absurd rfl hopening
    | asks hl hasks =>
      obtain ⟨g, htallies⟩ := exists_tallies_request h.broker hasks hworded
      have hlt := (List.getElem?_eq_some_iff.mp hl).1
      simp only [Broker.step, htallies]
      exact List.getElem?_modify_ne _ _ (Nat.ne_of_lt (Nat.lt_of_lt_of_le hlt hch))
    | serve =>
      refine Broker.tallies_serve_of_ne fun q hq s hs => ?_
      exact Nat.ne_of_lt (Nat.lt_of_lt_of_le (hlinked.serves q hq s hs).1 hch)
    | disconnect error => exact absurd rfl (hdisconnect error)
    | refuseNext error => rfl

/-- The channels that miss their ends with an event are not there yet, and the broker's ends are. -/
theorem mem_missedBy (he : ch ∈ h.missedBy e) :
    h.lines.length ≤ ch ∧ ch < h.broker.tallies.length := by
  cases e with
  | disconnect error =>
    obtain ⟨hle, hlt⟩ := List.mem_range'_1.mp he
    refine ⟨hle, ?_⟩
    rw [Broker.tallies, List.length_map]
    omega
  | _ => cases he

/-- A channel that is not there yet when the connection drops misses its end. -/
theorem mem_missedBy_disconnect (error : Value) (hle : h.lines.length ≤ ch)
    (hlt : ch < h.broker.tallies.length) : ch ∈ h.missedBy (.disconnect error) := by
  rw [Broker.tallies, List.length_map] at hlt
  exact List.mem_range'_1.mpr ⟨hle, by omega⟩

/-- The channels that are not there yet stay as the broker made them, but for their ends. -/
theorem Linked.untouched_step (hlinked : h.Linked missed) (hworded : e.IsWorded) {t : Tally}
    (hch : (h.step e).lines.length ≤ ch) (ht : (h.step e).broker.tallies[ch]? = some t) :
    t = { closed := decide (ch ∈ missed ++ h.missedBy e) } := by
  have hle : h.lines.length ≤ ch := Nat.le_trans (length_lines_le_step h e) hch
  by_cases hopening : e = .opening
  · subst hopening
    have hsame : missed ++ h.missedBy .opening = missed := List.append_nil _
    rw [step_opening] at ht
    rw [hsame]
    cases Broker.opening_openNext h.broker with
    | refused _ htallies =>
      rw [htallies] at ht
      exact hlinked.untouched ch t hle ht
    | made _ htallies =>
      rw [htallies] at ht
      rcases Nat.lt_or_ge ch h.broker.tallies.length with hlt | hge
      · rw [List.getElem?_append_left hlt] at ht
        exact hlinked.untouched ch t hle ht
      · have hm : ch ∉ missed := fun hm => Nat.not_le_of_lt (hlinked.known ch hm) hge
        rw [List.getElem?_append_right hge] at ht
        obtain rfl := List.mem_singleton.mp (List.mem_of_getElem? ht)
        rw [decide_eq_false hm]
  · by_cases hdisconnect : ∃ error, e = .disconnect error
    · obtain ⟨error, rfl⟩ := hdisconnect
      have htallies : (h.step (.disconnect error)).broker.tallies = h.broker.tallies.map .shut :=
        (tallies_step ..).trans (Broker.tallies_disconnect h.broker error)
      rw [htallies, List.getElem?_map] at ht
      obtain ⟨t₀, ht₀, rfl⟩ := Option.map_eq_some_iff.mp ht
      have hlt := (List.getElem?_eq_some_iff.mp ht₀).1
      have hm : ch ∈ missed ++ h.missedBy (.disconnect error) :=
        List.mem_append_right _ (mem_missedBy_disconnect error hle hlt)
      rw [hlinked.untouched ch t₀ hle ht₀, decide_eq_true hm]
      cases decide (ch ∈ missed) <;> rfl
    · have hother := not_exists.mp hdisconnect
      have hsame : missed ++ h.missedBy e = missed := by
        cases e with
        | disconnect error => exact absurd rfl (hother error)
        | _ => exact List.append_nil _
      rw [hlinked.getElem?_tallies_step hworded hopening hother hle] at ht
      rw [hsame]
      exact hlinked.untouched ch t hle ht

/-- The broker goes on having made its ends of the channels that are there and of those being
opened. -/
theorem Linked.counted_step (hlinked : h.Linked missed) (hworded : e.IsWorded) :
    (h.step e).broker.tallies.length =
      (h.step e).lines.length + (h.step e).openings.countP opens := by
  by_cases hopening : e = .opening
  · subst hopening
    rw [step_opening]
    simp only [List.countP_append, ← Nat.add_assoc, ← hlinked.counted]
    cases Broker.opening_openNext h.broker with
    | refused ho htallies =>
      rw [ho, htallies]
      rfl
    | made ho htallies =>
      rw [ho, htallies, List.length_append]
      rfl
  · rw [length_tallies_step hworded hopening, hlinked.counted]
    by_cases hopened : e = .opened
    · subst hopened
      have henrolls := h.enrolls_enroll
      rw [step_opened]
      generalize h.enroll = h' at henrolls ⊢
      cases henrolls with
      | nobody => rfl
      | refused hopenings =>
        rw [hopenings]
        rfl
      | opened hopenings =>
        have hcount (rest : List Channel.Outcome) (reply : Value) :
            (Channel.Outcome.replied reply :: rest).countP opens = 1 + rest.countP opens := by
          rw [List.countP_cons_of_pos rfl, Nat.add_comm]
        rw [hopenings, hcount, List.length_append, List.length_singleton, Nat.add_assoc]
    · obtain ⟨hlength, hopenings⟩ := lines_openings_step hopening hopened
      rw [hlength, hopenings]

/-- A consumer that is asked for under a new number is known by the mode that it is asked for. -/
theorem mode?_step_of_consume (hnew : e.NewFor h) {number : Nat} {name options : Value}
    (hforwarded : h.forwarded? e = some (.request ch number (.basicConsume name options))) :
    (h.step e).mode? number = some (Broker.modeOf options) := by
  cases forwards_of_eq_some hforwarded with
  | @asks _ _ _ r _ _ _ hasks =>
    have hmodes := (Session.askedModes_of_asks hasks).1
    cases r with
    | consume queue asked =>
      have hmode : Channel.ackModeOf asked = Broker.modeOf options := (List.cons.inj hmodes).1
      have hnone : h.subscriptions.find? (·.call == number) = none := by
        refine List.find?_eq_none.mpr fun s hs hcall => ?_
        exact (hnew number rfl).2 s hs (beq_iff_eq.mp hcall)
      rw [mode?, subscription?, subscriptions_step, List.find?_append, hnone, ← hmode]
      simp [Event.subscription?]
    | _ => cases hmodes

/-- The broker goes on serving consumers that were asked for on channels that hear of their ends. -/
theorem Linked.serves_step (hlinked : h.Linked missed) (hnew : e.NewFor h) :
    (h.response e).broker.Serves ((h.step e).Attends (missed ++ h.missedBy e)) := by
  have hthere {ch : Nat} (hlt : ch < h.lines.length) (hm : ch ∉ missed) :
      ch < (h.step e).lines.length ∧ ch ∉ missed ++ h.missedBy e := by
    refine ⟨Nat.lt_of_lt_of_le hlt (length_lines_le_step h e), fun hmem => ?_⟩
    rcases List.mem_append.mp hmem with hmem | hmem
    · exact hm hmem
    · exact Nat.not_le_of_lt hlt (mem_missedBy hmem).1
  have hkept (ch number : Nat) (mode : AckMode) (hattends : h.Attends missed ch number mode) :
      (h.step e).Attends (missed ++ h.missedBy e) ch number mode := by
    obtain ⟨hlt, hm, hmode⟩ := hattends
    exact ⟨(hthere hlt hm).1, (hthere hlt hm).2, mode?_step_of_eq_some hmode⟩
  rw [response]
  cases hforwarded : h.forwarded? e with
  | none => exact fun q hq s hs => hkept _ _ _ (hlinked.serves q hq s hs)
  | some f =>
    refine hlinked.serves.step hlinked.named hkept ?_
    rintro ch number name options rfl hopen
    have hmode := mode?_step_of_consume hnew hforwarded
    cases forwards_of_eq_some hforwarded with
    | asks hl _ =>
      have hlt := (List.getElem?_eq_some_iff.mp hl).1
      have ht := List.getElem?_eq_getElem (Nat.lt_of_lt_of_le hlt hlinked.length_le)
      obtain ⟨hm, _⟩ := (hlinked.ties ch _ _ hl ht).of_open (hopen.closed_eq ht)
      exact ⟨(hthere hlt hm).1, (hthere hlt hm).2, hmode⟩

/-- The channels and the broker hang together after every step under a new number. -/
theorem Linked.step (hlinked : h.Linked missed) (hnew : e.NewFor h) (hworded : e.IsWorded) :
    (h.step e).Linked (missed ++ h.missedBy e) where
  ties := by
    refine (hlinked.ties_step hnew hworded).extend fun ch hch => ?_
    cases e with
    | disconnect error =>
      rw [(lines_openings_step (by rintro ⟨⟩) (by rintro ⟨⟩)).1]
      exact (mem_missedBy hch).1
    | _ => cases hch
  untouched _ _ hch ht := hlinked.untouched_step hworded hch ht
  counted := hlinked.counted_step hworded
  known := by
    have hmore : h.broker.tallies.length ≤ (h.step e).broker.tallies.length := by
      by_cases hopening : e = .opening
      · subst hopening
        rw [step_opening]
        cases Broker.opening_openNext h.broker with
        | refused _ htallies => exact Nat.le_of_eq (congrArg _ htallies.symm)
        | made _ htallies =>
          rw [htallies, List.length_append]
          exact Nat.le_add_right ..
      · exact Nat.le_of_eq (length_tallies_step hworded hopening).symm
    intro ch hch
    rcases List.mem_append.mp hch with hch | hch
    · exact Nat.lt_of_lt_of_le (hlinked.known ch hch) hmore
    · exact Nat.lt_of_lt_of_le (mem_missedBy hch).2 hmore
  serves := by
    obtain ⟨n, hbroker⟩ := broker_step h e
    rw [hbroker]
    exact hlinked.serves_step hnew
  named := by
    obtain ⟨n, hbroker⟩ := broker_step h e
    have hnamed : (h.response e).broker.Named := by
      rw [response]
      cases h.forwarded? e with
      | none => exact hlinked.named
      | some f => exact (Broker.turn_step h.broker f).named hlinked.named
    rw [hbroker]
    exact ⟨hnamed.distinct, hnamed.declared, hnamed.apart⟩

/-- A hub that nothing has happened to hangs together. -/
theorem linked_empty : ({} : Hub).Linked [] where
  ties _ _ _ hl := by cases hl
  untouched _ _ _ ht := by cases ht
  counted := rfl
  known := List.forall_mem_nil _
  serves := List.forall_mem_nil _
  named := Broker.named_reached []

/-! ## Numbers -/

/-- Everything that goes under a number goes under one of those. -/
structure Known (h : Hub) (known : List Nat) : Prop where
  calls : ∀ l ∈ h.lines, ∀ c ∈ l.machine.calls, c.id ∈ known
  subscriptions : ∀ s ∈ h.subscriptions, s.call ∈ known

/-- What holds of all members goes on holding where one of them changes. -/
theorem forall_mem_modify {α : Type} {P : α → Prop} {xs : List α} {f : α → α}
    (h : ∀ x ∈ xs, P x) (hf : ∀ x, P x → P (f x)) (i : Nat) : ∀ x ∈ xs.modify i f, P x := by
  intro x hx
  obtain ⟨j, hj⟩ := List.getElem?_of_mem hx
  rw [List.getElem?_modify] at hj
  obtain ⟨y, hy, rfl⟩ := Option.map_eq_some_iff.mp hj
  have hold := h y (List.mem_of_getElem? hy)
  by_cases hi : i = j
  · rw [if_pos hi]
    exact hf y hold
  · rw [if_neg hi]
    exact hold

/-- What channels hear of issues nothing. -/
theorem forall_lines_hear {P : Line → Prop}
    (htell : ∀ l f, f.issued? = none → P l → P (l.tell f)) {h : Hub} (hlines : ∀ l ∈ h.lines, P l)
    (effects : List Broker.Effect) : ∀ l ∈ (effects.foldl hear h).lines, P l := by
  induction effects generalizing h with
  | nil => exact hlines
  | cons f effects ih =>
    refine ih ?_
    cases f with
    | deliver ch number m =>
      simp only [hear]
      split
      · exact forall_mem_modify hlines (fun l => htell l _ rfl) ch
      · exact hlines
    | cancelled ch number tag =>
      simp only [hear]
      split
      · exact forall_mem_modify hlines (fun l => htell l _ rfl) ch
      · exact hlines
    | lost ch error => exact forall_mem_modify hlines (fun l => htell l _ rfl) ch

/-- What holds of all channels goes on holding in a step, if it holds of a new channel and of every
channel that something happens to. -/
theorem forall_lines_step {P : Line → Prop} (hlines : ∀ l ∈ h.lines, P l)
    (hopened : ∀ id, P { machine := Channel.opened id })
    (htell : ∀ l f, f.issued? = none ∨ f.issued? = e.issued? → P l → P (l.tell f))
    (hanswer : ∀ l call, P l → P (l.answer call)) (hawait : ∀ l call o, P l → P (l.await call o)) :
    ∀ l ∈ (h.step e).lines, P l := by
  have hstarted : ∀ l ∈ (h.started e).lines, P l := by
    cases e with
    | issue ch call r => exact forall_mem_modify hlines (fun l => htell l _ (.inr rfl)) ch
    | answered ch call => exact forall_mem_modify hlines (fun l => hanswer l call) ch
    | heard ch | turn ch | handlerFailed ch =>
      exact forall_mem_modify hlines (fun l => htell l _ (.inl rfl)) ch
    | _ => exact hlines
  have hheard : ∀ l ∈ ((h.response e).effects.foldl hear
      { h.started e with broker := (h.response e).broker }).lines, P l :=
    forall_lines_hear (h := { h.started e with broker := (h.response e).broker })
      (fun l f hf => htell l f (.inl hf)) hstarted _
  have hconcluded (h : Hub) (hlines : ∀ l ∈ h.lines, P l) (asked : Bool) (o : Channel.Outcome) :
      ∀ l ∈ (h.concluded e asked o).lines, P l := by
    cases e with
    | issue ch call r =>
      simp only [concluded]
      split
      · exact forall_mem_modify hlines (fun l => hawait l call o) ch
      · exact hlines
    | opened =>
      simp only [concluded]
      have henrolls := h.enrolls_enroll
      generalize h.enroll = h' at henrolls ⊢
      cases henrolls with
      | nobody | refused => exact hlines
      | opened =>
        intro l hl
        rcases List.mem_append.mp hl with hl | hl
        · exact hlines l hl
        · rw [List.mem_singleton.mp hl]
          exact hopened _
    | _ => exact hlines
  exact hconcluded _ hheard _ _

/-- A call in flight after something happens to a channel was in flight before, or is issued. -/
theorem issued_of_mem_calls_step {m : Machine} {f : Channel.Event}
    (hc : c ∈ (m.step f).1.calls) : (∃ c₀ ∈ m.calls, c₀.id = c.id) ∨ f.issued? = some c.id := by
  have hrun : c ∈ (m.run [f]).1.calls := hc
  rcases Session.mem_calls_run hrun with hold | ⟨g, hg, hissued⟩
  · exact .inl hold
  · obtain rfl := List.mem_singleton.mp hg
    exact .inr hissued

/-- The numbers in use after a step are those of before and the one that the event issues. -/
theorem Known.step {known : List Nat} (hknown : h.Known known) (e : Event) :
    (h.step e).Known (known ++ e.issued?.toList) where
  calls := by
    refine forall_lines_step ?_ (fun _ => List.forall_mem_nil _) ?_ ?_ fun _ _ _ h => h
    · exact fun l hl c hc => List.mem_append_left _ (hknown.calls l hl c hc)
    · intro l f hissued hold c hc
      rcases issued_of_mem_calls_step hc with ⟨c₀, hc₀, hid⟩ | hnew
      · exact hid ▸ hold c₀ hc₀
      · rcases hissued with hnone | hsome
        · rw [hnone] at hnew
          cases hnew
        · rw [← hsome, hnew]
          exact List.mem_append_right _ (List.mem_singleton_self _)
    · intro l call hold c hc
      rw [Line.answer] at hc
      split at hc
      · rcases issued_of_mem_calls_step hc with ⟨c₀, hc₀, hid⟩ | hnew
        · exact hid ▸ hold c₀ hc₀
        · cases hnew
      · exact hold c hc
  subscriptions := by
    intro s hs
    rw [subscriptions_step] at hs
    rcases List.mem_append.mp hs with hs | hs
    · exact List.mem_append_left _ (hknown.subscriptions s hs)
    · refine List.mem_append_right _ ?_
      cases e with
      | issue ch call r =>
        cases r with
        | consume queue options =>
          obtain rfl := List.mem_singleton.mp hs
          exact List.mem_singleton_self _
        | _ => cases hs
      | _ => cases hs

/-- No two requests of a run go under one number. -/
def Numbered (events : List Event) : Prop := (events.filterMap Event.issued?).Nodup

instance (events : List Event) : Decidable (Numbered events) :=
  inferInstanceAs (Decidable (events.filterMap Event.issued?).Nodup)

/-- The last event of a run adds the number that it issues. -/
theorem issued_concat (u : List Event) (e : Event) :
    (u ++ [e]).filterMap Event.issued? = u.filterMap Event.issued? ++ e.issued?.toList := by
  rw [List.filterMap_append]
  cases he : e.issued? <;> simp [he]

/-- The numbers in use after a run are those that it issues. -/
theorem known_reached (events : List Event) :
    (reached events).Known (events.filterMap Event.issued?) := by
  induction events using List.reverseRecOn with
  | nil => exact ⟨List.forall_mem_nil _, List.forall_mem_nil _⟩
  | append_singleton u e ih =>
    rw [reached_concat, issued_concat]
    exact ih.step e

/-- In a numbered run, every request comes under a new number. -/
theorem Numbered.newFor {u v : List Event} (hnumbered : Numbered (u ++ e :: v)) :
    e.NewFor (reached u) := by
  intro call hcall
  have hfresh : call ∉ u.filterMap Event.issued? := by
    rw [Numbered, List.filterMap_append, List.filterMap_cons, hcall] at hnumbered
    intro hmem
    exact List.disjoint_of_nodup_append hnumbered hmem (List.mem_cons_self ..)
  have hknown := known_reached u
  constructor
  · rintro l hl c hc rfl
    exact hfresh (hknown.calls l hl c hc)
  · rintro s hs rfl
    exact hfresh (hknown.subscriptions s hs)

/-- The beginning of a numbered run is numbered. -/
theorem Numbered.of_concat {u : List Event} (h : Numbered (u ++ [e])) : Numbered u := by
  rw [Numbered, issued_concat] at h
  exact h.of_append_left

/-- The channels and the broker hang together after every numbered run whose ends are worded. -/
theorem linked_reached {events : List Event} (hnumbered : Numbered events)
    (hworded : ∀ e ∈ events, e.IsWorded) : (reached events).Linked (missedEnds events) := by
  induction events using List.reverseRecOn with
  | nil => exact linked_empty
  | append_singleton u e ih =>
    rw [reached_concat, missedEnds, gathered_concat]
    have hlinked := ih hnumbered.of_concat fun e' he' => hworded e' (List.mem_append_left _ he')
    refine hlinked.step hnumbered.newFor ?_
    exact hworded e (List.mem_append_right _ (List.mem_singleton_self e))

end Amqp.Hub
