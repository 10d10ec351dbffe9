import Amqp.Proofs.Channel.Closed
import Amqp.Proofs.Hub.System

/-!
# How a channel keeps up with its tally

A channel and the broker's end of it are brought up to date at different moments: the broker's end
when it is asked, the channel when it hears of the answer. `Paired` is what holds at every moment:
the ledger of an open channel has the tags that wait at the broker's end, but for those that a
settlement covers which the broker has carried out and the channel has not heard of. A channel whose
end at the broker came before the channel itself is `Severed`: the two have nothing to do with each
other.
-/

namespace Amqp.Hub

open Channel (Machine)
open Broker (Tally)

namespace Line

/-- The settlement that the broker has carried out with an outcome. -/
def granted? (m : Machine) : Nat × Channel.Outcome → Option (Nat × Bool)
  | (call, .replied _) => m.asked? call
  | (_, .threw _) => none

/-- The settlements that the broker has carried out and the channel has not heard of. -/
def granted (l : Line) : List (Nat × Bool) := l.outcomes.filterMap (granted? l.machine)

/-- None of the settlements covers the tag. -/
def spared (settled : List (Nat × Bool)) (t : Tag) : Bool :=
  settled.all fun a => !t.coveredBy a.1 a.2

/-- The tags on the ledger of the channel that no settlement covers which the broker has carried
out. -/
def outstanding (l : Line) : List Tag :=
  (l.machine.channel.pending.map (·.1)).filter (spared l.granted)

/-- The broker has closed its end, and the channel has not heard of it. -/
def Ending (l : Line) : Prop :=
  ∃ call reply, (call, .replied reply) ∈ l.outcomes ∧ l.machine.IsClosing call

/-- What ties the parts of a channel together, if the broker has handed it messages under tags
below `next`. -/
structure Sound (l : Line) (next : Nat) : Prop where
  machine : l.machine.Sound
  /-- What a primitive came to is waited for by a call. -/
  awaited : ∀ o ∈ l.outcomes, ∃ c, l.machine.call? o.1 = some c ∧ c.IsAsked
  /-- A primitive comes to one thing. -/
  apart : (l.outcomes.map (·.1)).Nodup
  below : ∀ d k, l.machine.channel.Manual d k → k < next

end Line

/-- The channel passes a request on, under a new number. -/
structure Line.Passes (l : Line) (call : Nat) (r : Channel.Request) (c : Channel.Call)
    (p : Channel.Primitive) : Prop where
  new : (Channel.Event.issue call r).NewFor l.machine
  asks : Channel.Asks l.machine (.issue call r) c p
  id : c.id = call
  calls : (l.machine.step (.issue call r)).1.calls = l.machine.calls ++ [c]

/-- The tally of a channel once the broker has carried out a settlement, if it has. -/
def granting (t : Tally) : Option (Nat × Bool) → Tally
  | some a => t.settle a.1 a.2
  | none => t

/-- What ties a channel to its tally. -/
structure Paired (l : Line) (t : Tally) : Prop where
  sound : l.Sound t.next
  /-- A channel that is closed, or about to be, has ended at the broker. -/
  closed : l.machine.channel.isOpen = false → t.closed = true
  closing : l.machine.channel.closing = true → t.closed = true
  /-- A channel that is open though it has ended has a close to hear of. -/
  ending : t.closed = true → l.machine.channel.isOpen = true → l.Ending
  ended : l.Ending → t.closed = true
  ledger : t.closed = false → l.outstanding = t.tags.map .assigned

/-- What there is of a channel and its tally if nobody heard that the broker's end has ended:
nothing was ever handed out. -/
structure Severed (l : Line) (t : Tally) : Prop where
  sound : l.Sound 0
  ended : t = { closed := true }

variable {l : Line} {t : Tally} {o : Channel.Outcome} {e : Channel.Event} {m' : Machine}
  {next call : Nat} {r : Channel.Request} {c : Channel.Call} {p : Channel.Primitive}

namespace Line

theorem mem_granted {a : Nat × Bool} :
    a ∈ l.granted ↔ ∃ call reply, (call, .replied reply) ∈ l.outcomes ∧
      l.machine.asked? call = some a := by
  rw [granted, List.mem_filterMap]
  constructor
  · rintro ⟨⟨call, o⟩, ho, ha⟩
    cases o with
    | replied reply => exact ⟨call, reply, ho, ha⟩
    | threw thrown => cases ha
  · rintro ⟨call, reply, ho, ha⟩
    exact ⟨(call, .replied reply), ho, ha⟩

/-- Which settlements cover a tag does not depend on their order. -/
theorem spared_congr {xs ys : List (Nat × Bool)} (h : ∀ a, a ∈ xs ↔ a ∈ ys) :
    spared xs = spared ys := by
  funext t
  rw [Bool.eq_iff_iff, spared, spared, List.all_eq_true, List.all_eq_true]
  exact ⟨fun hxs a ha => hxs a ((h a).mpr ha), fun hys a ha => hys a ((h a).mp ha)⟩

/-- A channel that has just been opened has nothing to keep together. -/
theorem sound_opened (id : String) (next : Nat) :
    ({ machine := Channel.opened id } : Line).Sound next where
  machine := Channel.sound_opened id
  awaited := List.forall_mem_nil _
  apart := List.nodup_nil
  below := by
    rintro d k ⟨message, hd, _⟩
    cases hd

/-- A tag above all that were handed out is covered by no settlement. -/
theorem Sound.spared_of_le (h : l.Sound next) {k : Nat} (hk : next ≤ k) :
    spared l.granted (.assigned k) = true := by
  rw [spared, List.all_eq_true]
  intro a ha
  obtain ⟨call, reply, _, hasked⟩ := mem_granted.mp ha
  obtain ⟨c, d, s, multiple, requeue, _, hcall, hrequest, _, htag, _⟩ :=
    Machine.asked?_eq_some_iff.mp hasked
  obtain ⟨hmanual, _⟩ := h.machine.claimed c (Machine.mem_of_call? hcall).1 d s multiple requeue
    hrequest
  have hlt := h.below d c.tag hmanual
  have hcovers : ¬Covers a.1 a.2 k := by
    rintro (rfl | ⟨_, hlow⟩) <;> omega
  simp [Tag.coveredBy, hcovers]

/-- A call that waits for the broker is the same in another state of the channel. -/
def Keeps (l : Line) (m' : Machine) : Prop :=
  ∀ call c, l.machine.call? call = some c → c.IsAsked → m'.call? call = some c

/-- Whatever is not an answer keeps the calls that wait. -/
theorem keeps_step (hnew : e.NewFor l.machine) (hanswer : ∀ call o, e ≠ .answered call o) :
    l.Keeps (l.machine.step e).1 :=
  fun call _ hcall hasked => Machine.call?_step_of_isAsked hcall hasked hnew (hanswer call)

/-- The call that an outcome is for is the same in another state of the channel. -/
theorem Sound.call?_eq (h : l.Sound next) (hkeeps : l.Keeps m') {o : Nat × Channel.Outcome}
    (ho : o ∈ l.outcomes) : m'.call? o.1 = l.machine.call? o.1 := by
  obtain ⟨c, hcall, hasked⟩ := h.awaited o ho
  rw [hkeeps o.1 c hcall hasked, hcall]

theorem Sound.granted_eq (h : l.Sound next) (hkeeps : l.Keeps m') :
    ({ l with machine := m' } : Line).granted = l.granted := by
  refine List.filterMap_congr fun o ho => ?_
  obtain ⟨call, o⟩ := o
  cases o with
  | replied reply => exact Machine.asked?_congr (h.call?_eq hkeeps ho)
  | threw thrown => rfl

/-- Whether a channel is ending depends on the calls that wait. -/
theorem Sound.ending_iff (h : l.Sound next) (hkeeps : l.Keeps m') :
    ({ l with machine := m' } : Line).Ending ↔ l.Ending := by
  have hsame {call : Nat} {reply : Value} (ho : (call, .replied reply) ∈ l.outcomes) :
      m'.IsClosing call ↔ l.machine.IsClosing call := by
    rw [Machine.IsClosing, Machine.IsClosing, h.call?_eq hkeeps ho]
  constructor
  · rintro ⟨call, reply, ho, hclosing⟩
    exact ⟨call, reply, ho, (hsame ho).mp hclosing⟩
  · rintro ⟨call, reply, ho, hclosing⟩
    exact ⟨call, reply, ho, (hsame ho).mpr hclosing⟩

/-- What happens to a channel keeps its parts together, as long as it is no answer, a request comes
under a new number and a message under the next tag. -/
theorem Sound.tell (h : l.Sound next) {next' : Nat} (hnew : e.NewFor l.machine)
    (hanswer : ∀ call o, e ≠ .answered call o) (hle : next ≤ next')
    (harrives : ∀ message mode, e.label? = some (message, mode) →
      message.tag = .assigned next ∧ next < next') : (l.tell e).Sound next' where
  machine := by
    refine h.machine.step hnew fun message hl => ?_
    refine ⟨next, (harrives message _ hl).1, fun d hd => ?_⟩
    exact absurd (h.below d next hd) (Nat.lt_irrefl next)
  awaited := by
    intro o ho
    obtain ⟨c, hcall, hasked⟩ := h.awaited o ho
    exact ⟨c, keeps_step hnew hanswer o.1 c hcall hasked, hasked⟩
  apart := h.apart
  below := by
    intro d k hd
    rcases hd.of_step with hd | ⟨_, message, hl, htag⟩
    · exact Nat.lt_of_lt_of_le (h.below d k hd) hle
    · obtain ⟨hnext, hlt⟩ := harrives message _ hl
      obtain rfl := Tag.assigned.inj (htag.symm.trans hnext)
      exact hlt

/-- What the primitive of a new call came to waits for it. -/
theorem Sound.await (h : l.Sound next) (hcall : l.machine.call? c.id = some c)
    (hasked : c.IsAsked) (hfresh : ∀ o ∈ l.outcomes, o.1 ≠ c.id) (o : Channel.Outcome) :
    (l.await c.id o).Sound next where
  machine := h.machine
  awaited := by
    intro o' ho'
    rcases List.mem_append.mp ho' with ho' | ho'
    · exact h.awaited o' ho'
    · rw [List.mem_singleton.mp ho']
      exact ⟨c, hcall, hasked⟩
  apart := by
    rw [Line.await, List.map_append, List.nodup_append]
    refine ⟨h.apart, List.nodup_singleton _, ?_⟩
    rintro _ hid _ hid' rfl
    obtain ⟨o', ho', rfl⟩ := List.mem_map.mp hid
    exact hfresh o' ho' (List.mem_singleton.mp hid')
  below := h.below

/-- A call that is passed on is in flight. -/
theorem Sound.call?_passes (h : l.Sound next) (hpasses : l.Passes call r c p) :
    (l.tell (.issue call r)).machine.call? call = some c := by
  have hunique : (l.tell (.issue call r)).machine.UniqueIds := h.machine.unique.step hpasses.new
  rw [hunique.call?_eq_some_iff, Line.tell, hpasses.calls]
  exact ⟨List.mem_append_right _ (List.mem_singleton_self c), hpasses.id⟩

/-- Nothing has come of a call that is new. -/
theorem Sound.ne_of_mem_outcomes (h : l.Sound next) (hpasses : l.Passes call r c p) :
    ∀ o ∈ l.outcomes, o.1 ≠ call := by
  intro o ho hcall
  obtain ⟨c', hcall', _⟩ := h.awaited o ho
  obtain ⟨hc', hid'⟩ := Machine.mem_of_call? hcall'
  exact hpasses.new call rfl c' hc' (hid'.trans hcall)

/-- A channel that has passed a request on hears of what comes of it. -/
theorem Sound.asked (h : l.Sound next) (hpasses : l.Passes call r c p) (o : Channel.Outcome) :
    ((l.tell (.issue call r)).await call o).Sound next := by
  have htold : (l.tell (.issue call r)).Sound next :=
    h.tell hpasses.new (by rintro _ _ ⟨⟩) (Nat.le_refl _) (by rintro _ _ ⟨⟩)
  have hcall := h.call?_passes hpasses
  have hfresh := h.ne_of_mem_outcomes hpasses
  obtain rfl := hpasses.id
  exact htold.await hcall (Session.carries_of_asks hpasses.asks).1 hfresh o

/-- A call hears what its primitive came to. -/
theorem answer_of_mem (h : l.Sound next) (ho : (call, o) ∈ l.outcomes) :
    l.answer call =
      { machine := (l.machine.step (.answered call o)).1
        outcomes := l.outcomes.filter (·.1 != call) } := by
  have hfind : l.outcomes.find? (·.1 == call) = some (call, o) := by
    cases hfind : l.outcomes.find? (·.1 == call) with
    | none => exact absurd (List.find?_eq_none.mp hfind _ ho) (by simp)
    | some o' =>
      have hid : o'.1 = call := by simpa using List.find?_some hfind
      have hmem := List.mem_of_find?_eq_some hfind
      rw [List.inj_on_of_nodup_map h.apart hmem ho hid]
  rw [answer, hfind]

/-- The channel hears the outcome that has waited longest. -/
theorem answer_cons {m : Machine} {waiting : List (Nat × Channel.Outcome)}
    (hfresh : ∀ o' ∈ waiting, o'.1 ≠ call) :
    ({ machine := m, outcomes := (call, o) :: waiting } : Line).answer call =
      ({ machine := m, outcomes := waiting } : Line).tell (.answered call o) := by
  have hrest : waiting.filter (·.1 != call) = waiting :=
    List.filter_eq_self.mpr fun o' ho' => bne_iff_ne.mpr (hfresh o' ho')
  simp [answer, tell, hrest]

theorem Sound.answered (h : l.Sound next) (ho : (call, o) ∈ l.outcomes) :
    (l.answer call).Sound next := by
  rw [answer_of_mem h ho]
  refine ⟨h.machine.step (by rintro _ ⟨⟩) (by rintro _ ⟨⟩), ?_, ?_, ?_⟩
  · intro o' ho'
    obtain ⟨ho', hne⟩ := List.mem_filter.mp ho'
    obtain ⟨c, hcall, hasked⟩ := h.awaited o' ho'
    refine ⟨c, ?_, hasked⟩
    rw [Machine.call?_step_of_ne, hcall]
    rintro ⟨⟩
    simp at hne
  · exact (List.filter_sublist.map _).nodup h.apart
  · intro d k hd
    rcases hd.of_step with hd | ⟨_, message, hl, _⟩
    · exact h.below d k hd
    · cases hl

theorem granted_await (l : Line) (call : Nat) (o : Channel.Outcome) :
    (l.await call o).granted = l.granted ++ (granted? l.machine (call, o)).toList := by
  rw [granted, Line.await, List.filterMap_append]
  cases h : granted? l.machine (call, o) <;> simp [granted, h]

/-- A channel that hears of something else than a close it asked for goes on ending if it was. -/
theorem ending_await_iff (hclosing : ¬l.machine.IsClosing call) :
    (l.await call o).Ending ↔ l.Ending := by
  constructor
  · rintro ⟨call', reply, ho, hcall'⟩
    rcases List.mem_append.mp ho with ho | ho
    · exact ⟨call', reply, ho, hcall'⟩
    · obtain ⟨rfl, _⟩ := Prod.mk.inj (List.mem_singleton.mp ho)
      exact absurd hcall' hclosing
  · rintro ⟨call', reply, ho, hcall'⟩
    exact ⟨call', reply, List.mem_append_left _ ho, hcall'⟩

/-- The outcomes that go on waiting are those of other calls. -/
theorem mem_outcomes_answer (h : l.Sound next) (ho : (call, o) ∈ l.outcomes)
    {o' : Nat × Channel.Outcome} :
    o' ∈ (l.answer call).outcomes ↔ o' ∈ l.outcomes ∧ o'.1 ≠ call := by
  rw [answer_of_mem h ho, List.mem_filter, bne_iff_ne]

/-- The other calls go on waiting. -/
theorem call?_answer (h : l.Sound next) (ho : (call, o) ∈ l.outcomes)
    {call' : Nat} (hne : call' ≠ call) :
    (l.answer call).machine.call? call' = l.machine.call? call' := by
  rw [answer_of_mem h ho]
  refine Machine.call?_step_of_ne ?_
  rintro ⟨⟩
  exact hne rfl

theorem mem_granted_answer (h : l.Sound next) (ho : (call, o) ∈ l.outcomes)
    {a : Nat × Bool} :
    a ∈ (l.answer call).granted ↔ ∃ call' reply, (call', .replied reply) ∈ l.outcomes ∧
      call' ≠ call ∧ l.machine.asked? call' = some a := by
  rw [mem_granted]
  constructor
  · rintro ⟨call', reply, ho', ha⟩
    obtain ⟨ho', hne⟩ := (mem_outcomes_answer h ho).mp ho'
    rw [Machine.asked?_congr (call?_answer h ho hne)] at ha
    exact ⟨call', reply, ho', hne, ha⟩
  · rintro ⟨call', reply, ho', hne, ha⟩
    refine ⟨call', reply, (mem_outcomes_answer h ho).mpr ⟨ho', hne⟩, ?_⟩
    rw [Machine.asked?_congr (call?_answer h ho hne), ha]

/-- An answer that carries out no settlement leaves an open channel its ledger. -/
theorem pending_answer (h : l.Sound next) (ho : (call, o) ∈ l.outcomes)
    (hgranted : granted? l.machine (call, o) = none)
    (hopen : (l.answer call).machine.channel.isOpen = true) :
    (l.answer call).machine.channel.pending = l.machine.channel.pending := by
  rw [answer_of_mem h ho] at hopen ⊢
  cases Channel.ledgerChange_step l.machine (.answered call o) with
  | same hsame => exact hsame
  | ended hclosed =>
    rw [hopen] at hclosed
    cases hclosed
  | settled he hcall hrequest hphase =>
    cases he
    have hasked := Machine.asked?_eq_some_iff.mpr
      ⟨_, _, _, _, _, _, hcall, hrequest, hphase, rfl, rfl⟩
    rw [granted?, hasked] at hgranted
    cases hgranted
  | tracked hl => cases hl

/-- The answer to a settlement takes what it covers off the ledger. -/
theorem pending_answer_of_granted (h : l.Sound next)
    (ho : (call, o) ∈ l.outcomes) {a : Nat × Bool}
    (hgranted : granted? l.machine (call, o) = some a) :
    (l.answer call).machine.channel.pending =
      l.machine.channel.pending.filter (!·.1.coveredBy a.1 a.2) := by
  rw [answer_of_mem h ho]
  cases o with
  | threw thrown => cases hgranted
  | replied reply =>
    obtain ⟨c, d, s, multiple, requeue, wasOpen, hcall, hrequest, hphase, htag, hall⟩ :=
      Machine.asked?_eq_some_iff.mp hgranted
    obtain rfl : c.id = call := (Machine.mem_of_call? hcall).2
    have hfault := h.machine.fault_release c.tag s multiple.isTruthy
    rw [Machine.step_accepted hcall hrequest hphase hfault reply]
    simp only [Machine.withChannel, Channel.pending_release,
      TagMap.kept_settle h.machine.assigned, htag, hall]

/-- What is outstanding stays so when an open channel hears of an answer: what a settlement covers
has not been since the broker carried it out. -/
theorem outstanding_answer (h : l.Sound next) (ho : (call, o) ∈ l.outcomes)
    (hopen : (l.answer call).machine.channel.isOpen = true) :
    (l.answer call).outstanding = l.outstanding := by
  have hsame {call' : Nat} {reply : Value} (ho' : (call', .replied reply) ∈ l.outcomes)
      (hcall : call' = call) : l.machine.asked? call' = granted? l.machine (call, o) := by
    subst hcall
    have hpair := List.inj_on_of_nodup_map h.apart ho ho' rfl
    rw [(Prod.mk.inj hpair).2]
    rfl
  cases ha : granted? l.machine (call, o) with
  | none =>
    have hgranted : spared (l.answer call).granted = spared l.granted := by
      refine spared_congr fun a => ?_
      rw [mem_granted_answer h ho, mem_granted]
      constructor
      · rintro ⟨call', reply, ho', _, hasked⟩
        exact ⟨call', reply, ho', hasked⟩
      · rintro ⟨call', reply, ho', hasked⟩
        refine ⟨call', reply, ho', fun hcall => ?_, hasked⟩
        rw [hsame ho' hcall, ha] at hasked
        cases hasked
    rw [outstanding, outstanding, hgranted, pending_answer h ho ha hopen]
  | some a =>
    have hgranted : spared l.granted = spared (a :: (l.answer call).granted) := by
      refine spared_congr fun b => ?_
      rw [List.mem_cons, mem_granted_answer h ho, mem_granted]
      constructor
      · rintro ⟨call', reply, ho', hasked⟩
        by_cases hcall : call' = call
        · rw [hsame ho' hcall, ha] at hasked
          exact .inl (Option.some.inj hasked).symm
        · exact .inr ⟨call', reply, ho', hcall, hasked⟩
      · rintro (rfl | ⟨call', reply, ho', _, hasked⟩)
        · cases o with
          | replied reply => exact ⟨call, reply, ho, ha⟩
          | threw thrown => cases ha
        · exact ⟨call', reply, ho', hasked⟩
    have hsplit : spared (a :: (l.answer call).granted) =
        fun t => spared (l.answer call).granted t && !t.coveredBy a.1 a.2 := by
      funext t
      simp [spared, Bool.and_comm]
    rw [outstanding, outstanding, hgranted, hsplit, ← List.filter_filter,
      pending_answer_of_granted h ho ha, List.filter_map (l := l.machine.channel.pending)]
    rfl

end Line

/-- A channel asks for its end exactly if it is asked to. -/
theorem isEnd_iff_of_asks {m : Machine} (h : Channel.Asks m (.issue call r) c p) :
    p.IsEnd ↔ r.IsEnd := by
  cases h with
  | operation hp =>
    cases r with
    | settle => cases hp
    | _ =>
      obtain rfl := Option.some.inj hp
      exact Iff.rfl
  | @settlement _ _ _ s => cases s <;> exact Iff.rfl

/-- A close in flight asks for an end. -/
theorem isEnd_of_isClose {m : Machine} (h : Channel.Asks m (.issue call r) c p)
    (hclose : c.request.isClose = true) : p.IsEnd := by
  rw [isEnd_iff_of_asks h]
  cases h with
  | operation _ =>
    cases r with
    | close params => trivial
    | _ => cases hclose
  | settlement => cases hclose

/-- What an accepted primitive settles is what its call is taken to. -/
theorem Line.granted?_of_asks {m : Machine} (h : Channel.Asks m (.issue call r) c p)
    (hcall : m'.call? call = some c) (reply : Value) :
    granted? m' (call, .replied reply) = p.settles? :=
  Option.ext fun _ => (Session.carries_of_asks h).settles?_iff hcall

/-- What the channel hears of its end once it has asked for it is nothing new. -/
theorem Line.tell_lost_of_end (hend : r.IsEnd) (error : Option Value) :
    (l.tell (.issue call r)).tell (.lost error) = l.tell (.issue call r) := by
  cases r with
  | close params =>
    have hclosing := Machine.closing_step_of_close l.machine call params
    simp only [Line.tell]
    generalize (l.machine.step (.issue call (.close params))).1 = m at hclosing
    simp only [Machine.step, Channel.lost, hclosing]
    simp [Machine.withChannel]
  | abort params =>
    have hclosed : (l.machine.step (.issue call (.abort params))).1.channel.isOpen = false := rfl
    simp only [Line.tell]
    generalize (l.machine.step (.issue call (.abort params))).1 = m at hclosed
    simp only [Machine.step, Channel.lost, hclosed]
    simp [Machine.withChannel]
  | _ => exact hend.elim

namespace Paired

open Line (granted? spared)

/-- A channel that has ended at the broker is paired with its tally if it is closed or ending. -/
theorem of_closed (hsound : l.Sound t.next) (hclosed : t.closed = true)
    (hending : l.machine.channel.isOpen = true → l.Ending) : Paired l t where
  sound := hsound
  closed _ := hclosed
  closing _ := hclosed
  ending _ := hending
  ended _ := hclosed
  ledger hopen := by
    rw [hclosed] at hopen
    cases hopen

/-- A channel that has just been opened is paired with the tally of a new channel. -/
theorem opened (id : String) : Paired { machine := Channel.opened id } {} where
  sound := Line.sound_opened id _
  closed h := by cases h
  closing h := by cases h
  ending h := by cases h
  ended := by
    rintro ⟨call, reply, ho, _⟩
    cases ho
  ledger _ := rfl

/-- An open end at the broker belongs to an open channel. -/
theorem isOpen (h : Paired l t) (hopen : t.closed = false) :
    l.machine.channel.isOpen = true := by
  by_contra hclosed
  have hended := h.closed (Bool.not_eq_true _ ▸ hclosed)
  rw [hopen] at hended
  cases hended

/-- A channel that is as open as before stays paired if its ledger keeps up. -/
theorem carried (h : Paired l t) {l' : Line} {t' : Tally} (hsound : l'.Sound t'.next)
    (hsame : t'.closed = t.closed)
    (hopen : l'.machine.channel.isOpen = l.machine.channel.isOpen)
    (hclosing : l'.machine.channel.closing = l.machine.channel.closing)
    (hending : l'.Ending ↔ l.Ending)
    (hledger : t.closed = false → l'.outstanding = t'.tags.map .assigned) : Paired l' t' where
  sound := hsound
  closed hshut := hsame ▸ h.closed (hopen ▸ hshut)
  closing hcloses := hsame ▸ h.closing (hclosing ▸ hcloses)
  ending hclosed hstill := hending.mpr (h.ending (hsame ▸ hclosed) (hopen ▸ hstill))
  ended hends := hsame ▸ h.ended (hending.mp hends)
  ledger hclosed := hledger (hsame ▸ hclosed)

/-- Nothing is handed out, answered or closed: the tally stays as it is. -/
theorem tell (h : Paired l t) (hnew : e.NewFor l.machine) (hlabel : e.label? = none)
    (hanswer : ∀ call o, e ≠ .answered call o) (hcloses : ¬l.machine.Closes e)
    (hclose : ∀ call params, e ≠ .issue call (.close params)) : Paired (l.tell e) t := by
  have hkeeps := Line.keeps_step hnew hanswer
  have hopen : (l.tell e).machine.channel.isOpen = l.machine.channel.isOpen :=
    Machine.isOpen_step_of_not_closes hcloses
  have hclosing : (l.tell e).machine.channel.closing = l.machine.channel.closing :=
    Machine.closing_step_of_other hclose fun call o he => absurd he (hanswer call o)
  have hsound : (l.tell e).Sound t.next := by
    refine h.sound.tell hnew hanswer (Nat.le_refl _) fun message mode hl => ?_
    rw [hlabel] at hl
    cases hl
  refine h.carried hsound rfl hopen hclosing (h.sound.ending_iff hkeeps) fun hclosed => ?_
  have hpending := (Machine.calm_step hnew hlabel hanswer).pending
    (hopen.trans (h.isOpen hclosed))
  have hgranted : (l.tell e).granted = l.granted := h.sound.granted_eq hkeeps
  rw [Line.outstanding, hgranted, Line.tell, hpending]
  exact h.ledger hclosed

/-- A request that does not end the channel leaves the tally as it is. -/
theorem tell_issue (h : Paired l t)
    (hnew : (Channel.Event.issue call r).NewFor l.machine) (hend : ¬r.IsEnd) :
    Paired (l.tell (.issue call r)) t := by
  refine h.tell hnew rfl (by rintro _ _ ⟨⟩) ?_ ?_
  · cases r with
    | abort params => exact absurd trivial hend
    | _ => exact fun hcloses => hcloses
  · rintro _ _ ⟨⟩
    exact hend trivial

/-- A message is handed to the channel, under the next tag. -/
theorem delivered (h : Paired l t) {message : Message} (htag : message.tag = .assigned t.next)
    (consumer : Nat) (mode : AckMode) :
    Paired (l.tell (.arrived consumer mode message)) (t.hand mode) := by
  have hnew : (Channel.Event.arrived consumer mode message).NewFor l.machine := by rintro _ ⟨⟩
  have hanswer (call : Nat) (o : Channel.Outcome) :
      Channel.Event.arrived consumer mode message ≠ .answered call o := by rintro ⟨⟩
  have hkeeps := Line.keeps_step hnew hanswer
  have hopen : (l.tell (.arrived consumer mode message)).machine.channel.isOpen =
      l.machine.channel.isOpen := Machine.isOpen_step_of_not_closes fun h => h
  have hclosing : (l.tell (.arrived consumer mode message)).machine.channel.closing =
      l.machine.channel.closing :=
    Machine.closing_step_of_other (by rintro _ _ ⟨⟩) (by rintro _ _ ⟨⟩)
  have hsound : (l.tell (.arrived consumer mode message)).Sound (t.next + 1) := by
    refine h.sound.tell hnew hanswer (Nat.le_succ _) ?_
    rintro _ _ ⟨⟩
    exact ⟨htag, Nat.lt_succ_self _⟩
  refine h.carried hsound rfl hopen hclosing (h.sound.ending_iff hkeeps) fun hclosed => ?_
  have hgranted : (l.tell (.arrived consumer mode message)).granted = l.granted :=
    h.sound.granted_eq hkeeps
  have harrive : (l.tell (.arrived consumer mode message)).machine.channel =
      l.machine.channel.receive message mode := by
    simp only [Line.tell, Machine.step, Machine.arrive, h.isOpen hclosed, if_true]
  rw [Line.outstanding, hgranted, harrive]
  cases mode with
  | auto => exact h.ledger hclosed
  | manual =>
    have hfresh (d : Nat) (hd : l.machine.channel.Manual d t.next) : False :=
      Nat.lt_irrefl _ (h.sound.below d _ hd)
    have hspared := h.sound.spared_of_le (Nat.le_refl t.next)
    rw [h.sound.machine.pending_receive htag hfresh, List.map_append, List.filter_append]
    simp only [Tally.hand, List.map_append, ← h.ledger hclosed, Line.outstanding,
      List.map_cons, List.map_nil, List.filter_cons, hspared, if_true, List.filter_nil]

/-- The broker reports the end of a channel that was open: so is the channel, until then. -/
theorem lost (h : Paired l t) (hopen : t.closed = false) (error : Option Value) :
    Paired (l.tell (.lost error)) t.ended := by
  have hsound : (l.tell (.lost error)).Sound t.next :=
    h.sound.tell (by rintro _ ⟨⟩) (by rintro _ _ ⟨⟩) (Nat.le_refl _) (by rintro _ _ ⟨⟩)
  have hclosing : l.machine.channel.closing = false := by
    by_contra hclosing
    have hended := h.closing (Bool.not_eq_false _ ▸ hclosing)
    rw [hopen] at hended
    cases hended
  refine of_closed hsound rfl fun hstill => ?_
  have hclosed : (l.tell (.lost error)).machine.channel.isOpen = false :=
    Machine.isOpen_step_of_closes hclosing
  rw [hclosed] at hstill
  cases hstill

/-- What the primitive of a new call came to waits for the channel. If it is a settlement that was
carried out, the tally is brought up to date at once. -/
theorem await (h : Paired l t) (hcall : l.machine.call? c.id = some c)
    (hasked : c.IsAsked) (hfresh : ∀ o ∈ l.outcomes, o.1 ≠ c.id)
    (hclosing : ¬l.machine.IsClosing c.id) (o : Channel.Outcome) :
    Paired (l.await c.id o) (granting t (granted? l.machine (c.id, o))) := by
  have hsound := h.sound.await hcall hasked hfresh o
  have hending : (l.await c.id o).Ending ↔ l.Ending := Line.ending_await_iff hclosing
  have hgranted := Line.granted_await l c.id o
  cases ha : granted? l.machine (c.id, o) with
  | none =>
    refine h.carried hsound rfl rfl rfl hending fun hclosed => ?_
    rw [Line.outstanding, hgranted, ha, Option.toList_none, List.append_nil]
    exact h.ledger hclosed
  | some a =>
    refine h.carried hsound rfl rfl rfl hending fun hclosed => ?_
    have hsplit : spared (l.granted ++ [a]) =
        fun t => !t.coveredBy a.1 a.2 && spared l.granted t := by
      funext t
      simp [spared, List.all_append, Bool.and_comm]
    have hledger := h.ledger hclosed
    rw [Line.outstanding] at hledger
    rw [Line.outstanding, hgranted, ha, Option.toList_some, hsplit, ← List.filter_filter,
      Line.await, hledger, List.filter_map]
    rfl

/-- The channel asks for something else than its end: what comes of it waits, and grants what the
primitive settles, unless it is refused. -/
theorem asked (h : Paired l t) (hpasses : l.Passes call r c p) (hend : ¬p.IsEnd)
    {settled : Option (Nat × Bool)} (hreplied : ∀ reply, o = .replied reply → settled = p.settles?)
    (hthrew : ∀ thrown, o = .threw thrown → settled = none) :
    Paired ((l.tell (.issue call r)).await call o) (granting t settled) := by
  have hrequest : ¬r.IsEnd := fun hr => hend ((isEnd_iff_of_asks hpasses.asks).mpr hr)
  have htold := h.tell_issue hpasses.new hrequest
  have hcall := h.sound.call?_passes hpasses
  have hfresh := h.sound.ne_of_mem_outcomes hpasses
  have hgranted : granted? (l.tell (.issue call r)).machine (call, o) = settled := by
    cases o with
    | replied reply =>
      rw [hreplied reply rfl]
      exact Line.granted?_of_asks hpasses.asks hcall reply
    | threw thrown =>
      rw [hthrew thrown rfl]
      rfl
  rw [← hgranted]
  obtain rfl := hpasses.id
  refine htold.await hcall (Session.carries_of_asks hpasses.asks).1 hfresh ?_ o
  rintro ⟨c', _, hcall', hclose, _⟩
  obtain rfl := Option.some.inj (hcall'.symm.trans hcall)
  exact hend (isEnd_of_isClose hpasses.asks hclose)

/-- The channel asks for its end, and the broker ends it or has done so before. -/
theorem finish (h : Paired l t) (hpasses : l.Passes call r c p) (hend : p.IsEnd) {t' : Tally}
    (hnext : t'.next = t.next) (hclosed : t'.closed = true)
    (ho : t.closed = false → ∃ reply, o = .replied reply) :
    Paired ((l.tell (.issue call r)).await call o) t' := by
  have hcall := h.sound.call?_passes hpasses
  have hsound := h.sound.asked hpasses o
  obtain rfl := hpasses.id
  refine of_closed (hnext ▸ hsound) hclosed fun hawaiting => ?_
  have hstill : (l.tell (.issue c.id r)).machine.channel.isOpen = true := hawaiting
  cases htally : t.closed with
  | true =>
    have hopen : l.machine.channel.isOpen = true := (Machine.isOpen_step_iff.mp hstill).1
    have hkeeps := Line.keeps_step hpasses.new (by rintro _ _ ⟨⟩)
    obtain ⟨call', reply, ho', hclosing⟩ :=
      (h.sound.ending_iff hkeeps).mpr (h.ending htally hopen)
    exact ⟨call', reply, List.mem_append_left _ ho', hclosing⟩
  | false =>
    obtain ⟨reply, rfl⟩ := ho htally
    refine ⟨c.id, reply, List.mem_append_right _ (List.mem_singleton_self _), ?_⟩
    cases p with
    | close params => exact (Session.carries_of_asks hpasses.asks).isClosing hcall
    | abort params =>
      have hshut : (l.tell (.issue c.id r)).machine.channel.isOpen = false :=
        Session.isOpen_of_asks_abort hpasses.asks trivial
      rw [hshut] at hstill
      cases hstill
    | _ => exact hend.elim

/-- The channel hears what the primitive of a call came to. -/
theorem answered (h : Paired l t) (ho : (call, o) ∈ l.outcomes) :
    Paired (l.answer call) t := by
  have hsound := h.sound.answered ho
  have hanswer := Line.answer_of_mem h.sound ho
  have hending (hends : (l.answer call).Ending) : l.Ending := by
    obtain ⟨call', reply, ho', hclosing⟩ := hends
    obtain ⟨ho', hne⟩ := (Line.mem_outcomes_answer h.sound ho).mp ho'
    rw [Machine.IsClosing, Line.call?_answer h.sound ho hne] at hclosing
    exact ⟨call', reply, ho', hclosing⟩
  by_cases hcloses : l.machine.Closes (.answered call o)
  · -- the close that the broker has carried out is heard of
    have hends : l.Ending := by
      cases o with
      | replied reply => exact ⟨call, reply, ho, hcloses⟩
      | threw thrown => exact hcloses.elim
    refine of_closed hsound (h.ended hends) fun hstill => ?_
    rw [hanswer, Machine.isOpen_step_of_closes hcloses] at hstill
    cases hstill
  · have hopen : (l.answer call).machine.channel.isOpen = l.machine.channel.isOpen := by
      rw [hanswer]
      exact Machine.isOpen_step_of_not_closes hcloses
    refine ⟨hsound, ?_, ?_, ?_, fun hends => h.ended (hending hends), ?_⟩
    · rw [hopen]
      exact h.closed
    · intro hclosing
      refine h.closing ?_
      by_cases hcall : l.machine.IsClosing call
      · rw [hanswer, Machine.closing_step_of_answered hcall] at hclosing
        cases hclosing
      · rw [hanswer] at hclosing
        rwa [Machine.closing_step_of_other (by rintro _ _ ⟨⟩)] at hclosing
        rintro _ _ ⟨⟩
        exact hcall
    · intro hclosed hstill
      obtain ⟨call', reply, ho', hclosing⟩ := h.ending hclosed (hopen ▸ hstill)
      have hne : call' ≠ call := by
        rintro rfl
        have hsame := List.inj_on_of_nodup_map h.sound.apart ho ho' rfl
        rw [(Prod.mk.inj hsame).2] at hcloses
        exact hcloses hclosing
      refine ⟨call', reply, (Line.mem_outcomes_answer h.sound ho).mpr ⟨ho', hne⟩, ?_⟩
      rw [Machine.IsClosing, Line.call?_answer h.sound ho hne]
      exact hclosing
    · intro hclosed
      rw [Line.outstanding_answer h.sound ho (hopen.trans (h.isOpen hclosed))]
      exact h.ledger hclosed

end Paired

namespace Severed

/-- A channel whose end the broker has told of before it is there. -/
theorem opened (id : String) : Severed { machine := Channel.opened id } { closed := true } :=
  ⟨Line.sound_opened id 0, rfl⟩

/-- A channel that is handed nothing stays severed. -/
theorem tell (h : Severed l t) (hnew : e.NewFor l.machine) (hlabel : e.label? = none)
    (hanswer : ∀ call o, e ≠ .answered call o) : Severed (l.tell e) t := by
  refine ⟨h.sound.tell hnew hanswer (Nat.le_refl _) fun message mode hl => ?_, h.ended⟩
  rw [hlabel] at hl
  cases hl

theorem answered (h : Severed l t) (ho : (call, o) ∈ l.outcomes) : Severed (l.answer call) t :=
  ⟨h.sound.answered ho, h.ended⟩

/-- Whatever the channel asks for settles nothing. -/
theorem asked (h : Severed l t) (hpasses : l.Passes call r c p) (settled : Option (Nat × Bool)) :
    Severed ((l.tell (.issue call r)).await call o) (granting t settled) := by
  refine ⟨h.sound.asked hpasses o, ?_⟩
  rw [h.ended]
  cases settled <;> rfl

/-- Nothing is on the ledger of the channel. -/
theorem pending_eq_nil (h : Severed l t) : l.machine.channel.pending = [] := by
  rw [List.eq_nil_iff_forall_not_mem]
  rintro ⟨tag, d⟩ hmem
  obtain ⟨n, _, hmanual⟩ := h.sound.machine.ledger tag d hmem
  exact Nat.not_lt_zero n (h.sound.below d n hmanual)

end Severed

end Amqp.Hub
