import Amqp.Proofs.Connection.Attempts
import Amqp.Proofs.Error.Description

/-!
# What comes of attempts to connect

A call settles with the event that stops its attempt from waiting: the connection, a refusal or the
end of its time. A connection that comes for an attempt that is late is closed. Only a refusal that
cannot be described would settle nothing, and an error can.
-/

namespace Amqp.Dialer

/-- What comes of all attempts in a run. -/
def emitted (events : List Event) : List Effect := (({} : Dialer).run events).2

namespace Effect

/-- The number of the call that settles with the effect. -/
def finished? : Effect → Option Nat
  | .finish id _ => some id
  | _ => none

/-- The number of the attempt whose connection is closed with the effect. -/
def closedLate? : Effect → Option Nat
  | .closeLate id => some id
  | _ => none

end Effect

/-- The event ends a call, after the events `u`. -/
inductive Event.Ends (u : List Event) (id : Nat) : Event → ConnectResult → Prop where
  | invalid {o : ConnectionOptions} (h : Url.parse? o.uri = none) :
      Ends u id (.connect id (.ofOptions o)) (.failed (.invalidUri invalidUrlDetail))
  | established (h : Stands u id .waiting) : Ends u id (.established id) .connected
  | refused {thrown : Value} {detail : String} (h : Stands u id .waiting)
      (hdetail : describe thrown = .ok detail) :
      Ends u id (.refused id thrown) (.failed (.refused detail thrown))
  | expired {o : ConnectionOptions} {v w : List Event} {milliseconds : Number}
      (h : Began u id o v w) (hwaits : phaseSince id o (clock v) w = .waiting)
      (hdue : (limitEnd (clock v) o).le (clock (u ++ [.advance milliseconds])) = true) :
      Ends u id (.advance milliseconds) (.failed (.timedOut o.timeout.text))

variable {d : Dialer} {a : Attempt} {e : Event} {u v w events : List Event} {id id' : Nat}
  {o : ConnectionOptions} {now : Number} {p : AttemptPhase} {r : ConnectResult} {thrown : Value}

/-! ## What comes of a step -/

/-- What comes of a connection depends on where its attempt stands. -/
theorem effects_established (d : Dialer) (id : Nat) : (d.step (.established id)).2 =
    match (d.attempt? id).map (·.phase) with
    | some .waiting => [.finish id .connected]
    | some .late => [.log lateEntry, .closeLate id]
    | _ => [] := by
  simp only [step]
  cases h : d.attempt? id with
  | none => rfl
  | some a =>
    obtain rfl : a.id = id := by simpa using List.find?_some h
    cases hp : a.phase <;> simp [establish, hp]

/-- What comes of a refusal depends on where the attempt stands, and on the text of the refusal. -/
theorem effects_refused (d : Dialer) (id : Nat) (thrown : Value) :
    (d.step (.refused id thrown)).2 =
      match (d.attempt? id).map (·.phase), describe thrown with
      | some .waiting, .ok detail => [.finish id (.failed (.refused detail thrown))]
      | _, _ => [] := by
  simp only [step]
  cases h : d.attempt? id with
  | none => rfl
  | some a =>
    obtain rfl : a.id = id := by simpa using List.find?_some h
    cases hp : a.phase <;> cases hd : describe thrown <;> simp [refuse, hp, hd]

/-- The timers that are due end their calls. -/
theorem finish_mem_advance {milliseconds : Number} : .finish id r ∈ (d.advance milliseconds).2 ↔
    ∃ a ∈ d.attempts, a.id = id ∧ a.armed = true ∧ a.phase = .waiting ∧
      a.due.le (d.now.add milliseconds) = true ∧
      r = .failed (.timedOut (a.limit.text?.getD "")) := by
  simp only [advance, expiry?, List.mem_filterMap, Attempt.isDue, Bool.and_eq_true, beq_iff_eq,
    Option.ite_none_right_eq_some, Option.some.injEq, Effect.finish.injEq]
  refine exists_congr fun a => and_congr_right fun _ => ?_
  constructor
  · rintro ⟨⟨⟨harmed, hdue⟩, hwaits⟩, rfl, rfl⟩
    exact ⟨rfl, harmed, hwaits, hdue, rfl⟩
  · rintro ⟨rfl, harmed, hwaits, hdue, rfl⟩
    exact ⟨⟨⟨harmed, hdue⟩, hwaits⟩, rfl, rfl⟩

/-- A caller with an address that cannot be read is told so at once. -/
theorem ends_connect_iff : (Event.connect id' (.ofOptions o)).Ends u id r ↔
    id = id' ∧ Url.parse? o.uri = none ∧ r = .failed (.invalidUri invalidUrlDetail) := by
  constructor
  · intro h
    generalize he : Event.connect id' (.ofOptions o) = e at h
    cases h with
    | invalid hurl =>
      obtain ⟨rfl, ho⟩ := Event.connect.inj he
      rw [ConnectionRequest.ofOptions_inj.mp ho]
      exact ⟨rfl, hurl, rfl⟩
    | _ => cases he
  · rintro ⟨rfl, hurl, rfl⟩
    exact .invalid hurl

/-- The calls that settle as time passes are those whose timers run out. -/
theorem finish_mem_advance_iff {milliseconds : Number}
    (h : Regular (u ++ [.advance milliseconds])) :
    .finish id r ∈ ((reached u).step (.advance milliseconds)).2 ↔
      (Event.advance milliseconds).Ends u id r := by
  have hf := faithful h.of_append
  refine finish_mem_advance.trans ?_
  rw [hf.now]
  constructor
  · rintro ⟨a, ha, rfl, harmed, hwaits, hdue, rfl⟩
    obtain ⟨id, o, v, w, hbegan, rfl⟩ := (hf.mem a).mp ha
    exact .expired hbegan hwaits (by rwa [clock_concat])
  · intro hends
    cases hends with
    | expired hbegan hwaits hdue =>
      rw [clock_concat] at hdue
      have ha := (hf.mem _).mpr ⟨_, _, _, _, hbegan, rfl⟩
      exact ⟨_, ha, rfl, by rw [standing, hwaits]; rfl, hwaits, hdue, rfl⟩

/-- The calls that settle with an event are those that it ends. -/
theorem finish_mem_step (h : Regular (u ++ [e])) :
    .finish id r ∈ ((reached u).step e).2 ↔ e.Ends u id r := by
  have hphase (id : Nat) : Stands u id .waiting ↔
      ((reached u).attempt? id).map (·.phase) = some .waiting := stands_iff h.of_append
  have he : e.IsRegular := h.regular e (by simp)
  cases e with
  | connect id' request =>
    obtain ⟨o, rfl⟩ := he
    rw [ends_connect_iff, step]
    cases hurl : Url.parse? o.uri with
    | none => simp [connect_of_none _ id' hurl]
    | some url =>
      obtain ⟨uri, hc⟩ := connect_of_isSome (reached u) id' (Option.isSome_of_eq_some hurl)
      simp [hc]
  | established id' =>
    rw [effects_established]
    constructor
    · split
      · rename_i hwaits
        intro hmem
        obtain ⟨rfl, rfl⟩ := Effect.finish.inj (List.mem_singleton.mp hmem)
        exact .established ((hphase _).mpr hwaits)
      · simp
      · simp
    · intro hends
      cases hends with
      | established hwaits => simp [(hphase _).mp hwaits]
  | refused id' thrown =>
    rw [effects_refused]
    constructor
    · split
      · rename_i detail hwaits hdetail
        intro hmem
        obtain ⟨rfl, rfl⟩ := Effect.finish.inj (List.mem_singleton.mp hmem)
        exact .refused ((hphase _).mpr hwaits) hdetail
      · simp
    · intro hends
      cases hends with
      | refused hwaits hdetail => simp [(hphase _).mp hwaits, hdetail]
  | misled | broke => exact he.elim
  | advance milliseconds => exact finish_mem_advance_iff h
  | lateCloseFailed thrown =>
    refine iff_of_false ?_ (by rintro ⟨⟩)
    simp only [step]
    split <;> simp

/-- A connection is closed when it comes for an attempt that is late. -/
theorem closeLate_mem_step (h : Regular (u ++ [e])) :
    .closeLate id ∈ ((reached u).step e).2 ↔ e = .established id ∧ Stands u id .late := by
  have he : e.IsRegular := h.regular e (by simp)
  rw [stands_iff h.of_append]
  cases e with
  | connect id' request =>
    simp only [step, connect]
    split <;> simp
  | established id' =>
    rw [effects_established]
    constructor
    · split
      · simp
      · rename_i hlate
        intro hmem
        obtain rfl : id = id' := by simpa using hmem
        exact ⟨rfl, hlate⟩
      · simp
    · rintro ⟨heq, hlate⟩
      obtain rfl := Event.established.inj heq
      simp [hlate]
  | refused id' thrown =>
    rw [effects_refused]
    split <;> simp
  | misled | broke => exact he.elim
  | advance milliseconds =>
    simp [step, advance, expiry?]
  | lateCloseFailed thrown =>
    simp only [step]
    split <;> simp

/-! ## What an event leaves for good -/

/-- An attempt that has stopped waiting does not begin to wait again. -/
theorem phaseSince_append_ne (h : phaseSince id o now v ≠ .waiting) (w : List Event) :
    phaseSince id o now (v ++ w) ≠ .waiting := by
  induction w using List.reverseRecOn with
  | nil => rwa [List.append_nil]
  | append_singleton w e ih =>
    rw [← List.append_assoc, phaseSince_concat]
    split
    · rintro ⟨⟩
    · rw [if_neg fun hdue => ih hdue.1]
      exact ih

/-- Where an attempt stands in a longer run depends on what it began with. -/
theorem Began.phase_eq {a b : List Event} (h : Began u id o a b) (hr : Regular (u ++ w))
    (hstands : Stands (u ++ w) id p) : phaseSince id o (clock a) (b ++ w) = p := by
  obtain ⟨o', a', b', h', hp⟩ := hstands
  obtain ⟨rfl, rfl, rfl⟩ := (h.append w).unique hr.numbered h'.split
  exact hp

theorem Stands.mem_begun (h : Stands u id p) : id ∈ u.filterMap Event.begun? := by
  obtain ⟨o, a, b, hbegan, _⟩ := h
  rw [hbegan.split]
  simp [Event.begun?]

/-- An answered attempt is over from then on. -/
theorem Stands.finished {q : AttemptPhase} (h : Stands u id p) (he : e.answered? = some id)
    (hr : Regular (u ++ e :: v)) (h' : Stands (u ++ e :: v) id q) : q = .finished := by
  obtain ⟨o, a, b, hbegan, _⟩ := h
  rw [← hbegan.phase_eq hr h']
  exact phaseSince_of_mem (by simp [he])

/-- An attempt is answered at most once before it is over. -/
theorem Stands.unique {u' v' : List Event} {e' : Event} {p' : AttemptPhase}
    (hr : Regular (u ++ e :: v)) (hsplit : u ++ e :: v = u' ++ e' :: v')
    (he : e.answered? = some id) (he' : e'.answered? = some id)
    (h : Stands u id p) (h' : Stands u' id p') (hp : p ≠ .finished) (hp' : p' ≠ .finished) :
    p = p' := by
  rcases append_cons_cases hsplit with ⟨w, rfl, rfl⟩ | ⟨rfl, -, -⟩ | ⟨w, rfl, rfl⟩
  · rw [hsplit] at hr
    exact absurd (h.finished he hr.of_append h') hp'
  · obtain ⟨o, a, b, hbegan, rfl⟩ := h
    have heq := hbegan.phase_eq (w := []) (by rw [List.append_nil]; exact hr.of_append)
      (by rwa [List.append_nil])
    rwa [List.append_nil] at heq
  · exact absurd (h'.finished he' hr.of_append h) hp

/-- An event ends a call that waits, or one that begins with it. -/
theorem Event.Ends.waits_or (h : e.Ends u id r) :
    Stands u id .waiting ∨ e.begun? = some id := by
  cases h with
  | invalid => exact .inr rfl
  | established hwaits => exact .inl hwaits
  | refused hwaits => exact .inl hwaits
  | expired hbegan hwaits => exact .inl ⟨_, _, _, hbegan, hwaits⟩

theorem Event.Ends.mem_begun (h : e.Ends u id r) (v : List Event) :
    id ∈ (u ++ e :: v).filterMap Event.begun? := by
  rw [List.filterMap_append]
  rcases h.waits_or with hstands | hbegun
  · exact List.mem_append_left _ hstands.mem_begun
  · rw [List.filterMap_cons_some hbegun]
    exact List.mem_append_right _ List.mem_cons_self

/-- A call that has ended does not wait any more. -/
theorem Event.Ends.not_waits (h : e.Ends u id r) (hr : Regular (u ++ e :: v)) :
    ¬Stands (u ++ e :: v) id .waiting := by
  intro hwaits
  cases h with
  | invalid hurl =>
    obtain ⟨o', a, b, hbegan, _⟩ := hwaits
    obtain ⟨-, heq, -⟩ := append_cons_unique hr.numbered rfl rfl hbegan.split
    rw [← ConnectionRequest.ofOptions_inj.mp (Event.connect.inj heq).2] at hbegan
    have hsome := hbegan.url
    rw [hurl] at hsome
    cases hsome
  | established hbefore => cases hbefore.finished rfl hr hwaits
  | refused hbefore => cases hbefore.finished rfl hr hwaits
  | @expired o a b milliseconds hbegan hbefore hdue =>
    have hlate : phaseSince id o (clock a) (b ++ [.advance milliseconds]) ≠ .waiting := by
      rw [clock_concat, hbegan.clock_eq] at hdue
      rw [phaseSince_concat, if_neg (by rintro ⟨⟩), if_pos ⟨hbefore, rfl, hdue⟩]
      rintro ⟨⟩
    have hphase := hbegan.phase_eq hr hwaits
    rw [List.append_cons] at hphase
    exact phaseSince_append_ne hlate v hphase

/-- A call that has begun and does not wait is not ended any more. -/
theorem not_ends_of_begun (hbegun : id ∈ u.filterMap Event.begun?)
    (hwaits : ¬Stands u id .waiting) (hr : Regular (u ++ e :: v)) : ¬e.Ends u id r := by
  intro hends
  rcases hends.waits_or with hstands | hagain
  · exact hwaits hstands
  · have hn := hr.numbered
    rw [List.filterMap_append, List.filterMap_cons_some hagain] at hn
    exact List.disjoint_of_nodup_append hn hbegun List.mem_cons_self

/-! ## The account of a run -/

/-- The timers that fire at once belong to different attempts. -/
theorem finished_advance_sublist (d : Dialer) (milliseconds : Number) :
    ((d.advance milliseconds).2.filterMap Effect.finished?).Sublist (d.attempts.map (·.id)) := by
  have hfinished (now : Number) (as : List Attempt) :
      ((as.filterMap (expiry? now)).filterMap Effect.finished?).Sublist (as.map (·.id)) := by
    induction as with
    | nil => exact List.nil_sublist _
    | cons a as ih =>
      rw [List.map_cons, List.filterMap_cons, expiry?]
      split
      · rename_i h
        exact ih.cons a.id
      · rename_i f h
        obtain ⟨-, heq⟩ := Option.ite_none_right_eq_some.mp h
        obtain rfl := Option.some_inj.mp heq
        exact ih.cons_cons a.id
  exact hfinished _ _

/-- Where an entry of the log does not count, only timers that fire at once bring several things
with one step. -/
theorem nodup_filterMap_step {g : Effect → Option Nat} (hlog : ∀ entry, g (.log entry) = none)
    (he : e.IsRegular) (hadvance : ∀ milliseconds, ((d.advance milliseconds).2.filterMap g).Nodup) :
    ((d.step e).2.filterMap g).Nodup := by
  have hone (f : Effect) : ([f].filterMap g).Nodup := by
    cases h : g f <;> simp [h]
  cases e with
  | connect id request =>
    simp only [step, connect]
    split <;> exact hone _
  | established id =>
    rw [effects_established]
    split
    · exact hone _
    · rw [List.filterMap_cons_none (hlog lateEntry)]
      exact hone _
    · exact List.nodup_nil
  | refused id thrown =>
    rw [effects_refused]
    split
    · exact hone _
    · exact List.nodup_nil
  | misled | broke => exact he.elim
  | advance milliseconds => exact hadvance milliseconds
  | lateCloseFailed thrown =>
    simp only [step]
    split
    · exact hone _
    · exact List.nodup_nil

/-- What a run makes of its attempts. -/
structure Accounted (events : List Event) : Prop where
  /-- A call settles with the event that ends it, and with the result that the event brings. -/
  settles : ∀ id r, .finish id r ∈ emitted events ↔
    ∃ u e v, events = u ++ e :: v ∧ e.Ends u id r
  /-- It settles once. -/
  once : ((emitted events).filterMap Effect.finished?).Nodup
  /-- A failure is reported as a timeout if the timer has fired. -/
  reports : ∀ u e v, events = u ++ e :: v → ∀ id error, e.Ends u id (.failed error) →
    error.report.name = if e.isAdvance then "RMQTimeoutError" else "RMQConnectionError"
  /-- A connection is closed if it comes for an attempt that is late. -/
  closes : ∀ id, .closeLate id ∈ emitted events ↔
    ∃ u v, events = u ++ .established id :: v ∧ Stands u id .late
  /-- It is closed once. -/
  closedOnce : ((emitted events).filterMap Effect.closedLate?).Nodup
  /-- A connection that an attempt still needs an answer for belongs to the caller, or else it is
  closed. -/
  keeps : ∀ u id v p, events = u ++ .established id :: v → Stands u id p → p ≠ .finished →
    (.finish id .connected ∈ emitted events ↔ .closeLate id ∉ emitted events)
  /-- The timers that are set are those of the attempts that wait. -/
  armed : ∀ a ∈ (reached events).attempts, a.armed = true ↔ Stands events a.id .waiting
  /-- A call that has settled leaves no timer behind. -/
  disarmed : ∀ id r, .finish id r ∈ emitted events →
    ∀ a ∈ (reached events).attempts, a.id = id → a.armed = false

/-- The caller of every attempt that is refused while it waits is told of the refusal. -/
def RefusalsHeard (events : List Event) : Prop :=
  ∀ u id thrown v, events = u ++ .refused id thrown :: v → Stands u id .waiting →
    ∃ error, .finish id (.failed error) ∈ emitted events ∧
      error.report.name = "RMQConnectionError"

theorem Regular.upTo (h : Regular events) (hsplit : events = u ++ e :: v) : Regular (u ++ [e]) := by
  rw [hsplit, List.append_cons] at h
  exact h.of_append

theorem mem_emitted {f : Effect} :
    f ∈ emitted events ↔ ∃ u e v, events = u ++ e :: v ∧ f ∈ ((reached u).step e).2 := by
  rw [emitted, run_eq_played, mem_played]
  simp only [reached, run_eq_played]

theorem finish_mem_emitted (h : Regular events) : .finish id r ∈ emitted events ↔
    ∃ u e v, events = u ++ e :: v ∧ e.Ends u id r := by
  rw [mem_emitted]
  refine exists_congr fun u => exists_congr fun e => exists_congr fun v =>
    and_congr_right fun hsplit => finish_mem_step (h.upTo hsplit)

theorem closeLate_mem_emitted (h : Regular events) : .closeLate id ∈ emitted events ↔
    ∃ u v, events = u ++ .established id :: v ∧ Stands u id .late := by
  rw [mem_emitted]
  constructor
  · rintro ⟨u, e, v, hsplit, hmem⟩
    obtain ⟨rfl, hlate⟩ := (closeLate_mem_step (h.upTo hsplit)).mp hmem
    exact ⟨u, v, hsplit, hlate⟩
  · rintro ⟨u, v, hsplit, hlate⟩
    exact ⟨u, _, v, hsplit, (closeLate_mem_step (h.upTo hsplit)).mpr ⟨rfl, hlate⟩⟩

theorem finished_nodup (h : Regular events) :
    ((emitted events).filterMap Effect.finished?).Nodup := by
  have hmem {u v : List Event} {e : Event} (hsplit : events = u ++ e :: v) {id : Nat}
      (hid : id ∈ ((reached u).step e).2.filterMap Effect.finished?) : ∃ r, e.Ends u id r := by
    obtain ⟨f, hf, hfinished⟩ := List.mem_filterMap.mp hid
    cases f with
    | finish id' r =>
      obtain rfl := Option.some_inj.mp hfinished
      exact ⟨r, (finish_mem_step (h.upTo hsplit)).mp hf⟩
    | _ => cases hfinished
  rw [emitted, run_eq_played]
  refine nodup_filterMap_played (fun u e v hsplit => ?_) (fun u e v e' w hsplit id hid hid' => ?_)
  · have hu : Regular u := (h.upTo hsplit).of_append
    rw [← run_eq_played]
    refine nodup_filterMap_step (fun _ => rfl) ((h.upTo hsplit).regular e (by simp)) fun _ => ?_
    exact (finished_advance_sublist _ _).nodup ((faithful hu).tidy hu).distinct
  · rw [← run_eq_played] at hid hid'
    obtain ⟨r, hends⟩ := hmem hsplit hid
    obtain ⟨r', hagain⟩ := hmem (by rw [hsplit, List.append_assoc]; rfl) hid'
    rw [hsplit, ← List.cons_append, ← List.append_assoc] at h
    exact not_ends_of_begun (hends.mem_begun v) (hends.not_waits h.of_append) h hagain

theorem closedLate_nodup (h : Regular events) :
    ((emitted events).filterMap Effect.closedLate?).Nodup := by
  have hmem {u v : List Event} {e : Event} (hsplit : events = u ++ e :: v) {id : Nat}
      (hid : id ∈ ((reached u).step e).2.filterMap Effect.closedLate?) :
      e.answered? = some id ∧ Stands u id .late := by
    obtain ⟨f, hf, hclosed⟩ := List.mem_filterMap.mp hid
    cases f with
    | closeLate id' =>
      obtain rfl := Option.some_inj.mp hclosed
      obtain ⟨rfl, hlate⟩ := (closeLate_mem_step (h.upTo hsplit)).mp hf
      exact ⟨rfl, hlate⟩
    | _ => cases hclosed
  rw [emitted, run_eq_played]
  refine nodup_filterMap_played (fun u e v hsplit => ?_) (fun u e v e' w hsplit id hid hid' => ?_)
  · have he := (h.upTo hsplit).regular e (by simp)
    refine nodup_filterMap_step (fun _ => rfl) he fun milliseconds => ?_
    have hnone : ∀ f ∈ ((reached u).advance milliseconds).2, f.closedLate? = none := by
      intro f hf
      obtain ⟨a, _, hexpiry⟩ := List.mem_filterMap.mp hf
      obtain ⟨-, heq⟩ := Option.ite_none_right_eq_some.mp hexpiry
      rw [← Option.some_inj.mp heq]
      rfl
    rw [← run_eq_played]
    exact (List.filterMap_eq_nil_iff.mpr hnone).symm ▸ List.nodup_nil
  · rw [← run_eq_played] at hid hid'
    obtain ⟨hanswered, hlate⟩ := hmem hsplit hid
    obtain ⟨-, hlate'⟩ := hmem (by rw [hsplit, List.append_assoc]; rfl) hid'
    rw [hsplit, ← List.cons_append, ← List.append_assoc] at h
    cases hlate.finished hanswered h.of_append hlate'

theorem accounted (h : Regular events) : Accounted events where
  settles _ _ := finish_mem_emitted h
  once := finished_nodup h
  reports := by
    intro u e v _ id error hends
    cases hends <;> rfl
  closes _ := closeLate_mem_emitted h
  closedOnce := closedLate_nodup h
  keeps := by
    intro u id v p hsplit hstands hp
    rw [closeLate_mem_emitted h]
    constructor
    · rintro hconnected ⟨u', v', hsplit', hlate⟩
      obtain ⟨x, e, y, rfl, hends⟩ := (finish_mem_emitted h).mp hconnected
      cases hends with
      | established hwaits =>
        cases hwaits.unique h hsplit' rfl rfl hlate (by rintro ⟨⟩) (by rintro ⟨⟩)
    · intro hnone
      cases p with
      | waiting => exact (finish_mem_emitted h).mpr ⟨u, _, v, hsplit, .established hstands⟩
      | late => exact absurd ⟨u, v, hsplit, hstands⟩ hnone
      | finished => exact absurd rfl hp
  armed _ ha := armed_iff h ha
  disarmed := by
    intro id r hfinished a ha hid
    obtain ⟨u, e, v, rfl, hends⟩ := (finish_mem_emitted h).mp hfinished
    refine Bool.eq_false_iff.mpr fun harmed => ?_
    have hwaits := (armed_iff h ha).mp harmed
    rw [hid] at hwaits
    exact hends.not_waits h hwaits

/-- Nobody hears of a refusal that cannot be described, neither then nor later. -/
theorem not_finish_of_hidesText (h : Regular (u ++ .refused id thrown :: v))
    (hwaits : Stands u id .waiting) (hhides : thrown.HidesText) :
    .finish id r ∉ emitted (u ++ .refused id thrown :: v) := by
  intro hmem
  obtain ⟨u', e, v', hsplit, hends⟩ := (finish_mem_emitted h).mp hmem
  rcases append_cons_cases hsplit with ⟨w, rfl, rfl⟩ | ⟨rfl, rfl, -⟩ | ⟨w, rfl, rfl⟩
  · -- The refusal has ended the attempt, so no later event ends the call.
    rw [hsplit] at h
    refine not_ends_of_begun ?_ (fun hstands => ?_) h hends
    · rw [List.filterMap_append]
      exact List.mem_append_left _ hwaits.mem_begun
    · cases hwaits.finished rfl h.of_append hstands
  · cases hends with
    | refused _ hdetail =>
      rw [describe_of_hidesText hhides] at hdetail
      cases hdetail
  · exact hends.not_waits h.of_append hwaits

/-- Every refusal that comes in time is heard if all of them can be described, and only then. -/
theorem refusalsHeard_iff (h : Regular events) : RefusalsHeard events ↔
    ∀ u id thrown v, events = u ++ .refused id thrown :: v → Stands u id .waiting →
      ¬thrown.HidesText := by
  constructor
  · rintro hheard u id thrown v rfl hwaits hhides
    obtain ⟨error, hmem, -⟩ := hheard u id thrown v rfl hwaits
    exact not_finish_of_hidesText h hwaits hhides hmem
  · intro hdescribed u id thrown v hsplit hwaits
    obtain ⟨detail, hdetail⟩ := describe_of_not_hidesText (hdescribed u id thrown v hsplit hwaits)
    exact ⟨_, (finish_mem_emitted h).mpr ⟨u, _, v, hsplit, .refused hwaits hdetail⟩, rfl⟩

/-- **Attempts to connect.** However many attempts run at once, whatever their time limits, and
however the answers of the peer and the passing of time interleave, each call settles at most once,
with the connection, the refusal or the timeout that comes first; a connection belongs to its
caller, or it comes too late and is closed once; and no timer stays behind. The peer refuses with
errors, and every refusal that comes in time is heard. -/
theorem attempts_settle_once (h : Regular events)
    (herrors : ∀ id thrown, .refused id thrown ∈ events → thrown.IsError) :
    Accounted events ∧ RefusalsHeard events := by
  refine ⟨accounted h, (refusalsHeard_iff h).mpr fun u id thrown v hsplit _ => ?_⟩
  have hmem : Event.refused id thrown ∈ events := by simp [hsplit]
  exact (herrors id thrown hmem).not_hidesText

/-- Two attempts to connect: the limit of the first one is longer than a timer can run, so that its
time is up at once; it is established too late, and its connection cannot be closed. The second one
is refused in time. -/
def overlappingAttempts : List Event :=
  [.connect 0 (.ofOptions ⟨"amqp://h", .ofNat 10, .ofNat 3000000000⟩),
    .connect 1 (.ofOptions ⟨"amqp://h", .ofNat 10, .ofNat 10⟩), .advance (.ofNat 1),
    .established 0, .lateCloseFailed .null, .refused 1 (.error "Error" "Connection refused" [])]

theorem attempts_settle_once_overlapping : Regular overlappingAttempts ∧
    (∀ id thrown, .refused id thrown ∈ overlappingAttempts → thrown.IsError) ∧
    Accounted overlappingAttempts ∧ Stands (overlappingAttempts.take 3) 0 .late ∧
    ∃ error, .finish 1 (.failed error) ∈ emitted overlappingAttempts ∧
      error.report.name = "RMQConnectionError" := by
  have hregular : Regular overlappingAttempts := by
    refine ⟨by decide, ?_⟩
    simp [overlappingAttempts, Event.IsRegular]
  have herrors : ∀ id thrown, .refused id thrown ∈ overlappingAttempts → thrown.IsError := by
    intro id thrown hmem
    obtain ⟨rfl, rfl⟩ : id = 1 ∧ thrown = .error "Error" "Connection refused" [] := by
      simpa [overlappingAttempts] using hmem
    exact ⟨_, _, _, rfl⟩
  have hlate : Stands (overlappingAttempts.take 3) 0 .late :=
    ⟨⟨"amqp://h", .ofNat 10, .ofNat 3000000000⟩, [], (overlappingAttempts.take 3).drop 1,
      ⟨rfl, by decide +kernel⟩, by decide +kernel⟩
  have hwaits : Stands (overlappingAttempts.take 5) 1 .waiting :=
    ⟨⟨"amqp://h", .ofNat 10, .ofNat 10⟩, overlappingAttempts.take 1,
      (overlappingAttempts.take 5).drop 2, ⟨rfl, by decide +kernel⟩, by decide +kernel⟩
  obtain ⟨haccounted, hheard⟩ := attempts_settle_once hregular herrors
  exact ⟨hregular, herrors, haccounted, hlate, hheard _ _ _ [] rfl hwaits⟩

end Amqp.Dialer
