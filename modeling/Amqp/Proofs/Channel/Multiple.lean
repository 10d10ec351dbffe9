import Amqp.Proofs.Channel.Closing
import Amqp.Proofs.Channel.Settling

/-!
# Settlements that cover more than one delivery

A `multiple` settlement that is accepted takes all smaller tags off the ledger. A delivery among
them that nobody has claimed is settled with it. One that has been claimed already keeps the state
that its own settlement gave it, and is given back if that settlement is refused after all: then it
waits again, but no ledger has it and the transport knows its tag no more. The main statement says
that a covered delivery is settled for good exactly if that does not happen.
-/

namespace Amqp.Channel

/-- The transport refuses with an error. -/
def Outcome.isError : Outcome → Bool
  | .threw (.error ..) => true
  | _ => false

namespace Machine

/-- The transport accepts the settlement of a tag. -/
def Accepts (m : Machine) (e : Event) (n : Nat) (all : Bool) : Prop :=
  ∃ call reply, e = .answered call (.replied reply) ∧ m.asked? call = some (n, all)

/-- A delivery leaves the ledger of a channel that stays open. -/
def Releases (m : Machine) (e : Event) (d : Nat) : Prop :=
  m.channel.Tracks d ∧ ¬(m.step e).1.channel.Tracks d ∧ (m.step e).1.channel.isOpen = true

variable {m : Machine} {e : Event} {d n k : Nat} {all : Bool}

/-- A settlement that is accepted takes what it covers off the ledger. -/
theorem Sound.not_tracks_of_accepts (h : m.Sound) (hd : m.channel.Manual d k)
    (haccepts : m.Accepts e n all) (hcovers : Covers n all k) :
    ¬(m.step e).1.channel.Tracks d := by
  obtain ⟨call, reply, rfl, hasked⟩ := haccepts
  obtain ⟨c, d', s, multiple, requeue, wasOpen, hcall, hrequest, hphase, rfl, rfl⟩ :=
    asked?_eq_some_iff.mp hasked
  obtain rfl := (mem_of_call? hcall).2
  rw [step_accepted hcall hrequest hphase (h.fault_release ..) reply, channel_withChannel]
  rintro ⟨t, ht⟩
  rw [pending_release, TagMap.kept_settle h.assigned] at ht
  have hpending := (h.tracks_iff hd).mp ⟨t, (List.mem_filter.mp ht).1⟩
  obtain ⟨j, rfl, hj⟩ := h.ledger t d (List.mem_filter.mp ht).1
  rw [← hd.tag_eq hj, ← TagMap.kept_settle h.assigned, TagMap.mem_kept_settle h.assigned] at ht
  exact ht.2 hcovers

/-- A delivery leaves the ledger of an open channel only with an accepted settlement that covers it,
and is in a terminal state then. -/
theorem Sound.released (h : m.Sound) (hfresh : e.FreshFor m) (hd : m.channel.Manual d k)
    (hreleases : m.Releases e d) :
    ∃ n all, m.Accepts e n all ∧ Covers n all k ∧
      ∃ state, state ≠ .unacknowledged ∧ (m.step e).1.channel.state? d = some state := by
  obtain ⟨htracks, hoff, hopen⟩ := hreleases
  have hpending := (h.tracks_iff hd).mp htracks
  cases ledgerChange_step m e with
  | same hsame => exact absurd (htracks.imp fun _ ht => hsame ▸ ht) hoff
  | ended hclosed => exact nomatch hopen.symm.trans hclosed
  | @tracked message hl hchannel =>
    obtain ⟨n, htag, hnew⟩ := hfresh message hl
    refine absurd ⟨.assigned k, ?_⟩ hoff
    rw [hchannel, h.pending_receive htag hnew]
    exact List.mem_append_left _ hpending
  | @settled c d' s multiple requeue reply wasOpen he hcall hrequest hphase hchannel =>
    have hcovers : Covers c.tag multiple.isTruthy k := by
      by_contra hnot
      refine hoff ⟨.assigned k, ?_⟩
      rw [hchannel, pending_release, TagMap.mem_kept_settle h.assigned]
      exact ⟨hpending, hnot⟩
    refine ⟨c.tag, multiple.isTruthy, ⟨c.id, reply, he, asked?_eq_some_iff.mpr ⟨c, d', s, multiple,
      requeue, wasOpen, hcall, hrequest, hphase, rfl, rfl⟩⟩, hcovers, ?_⟩
    rw [hchannel]
    rcases hcovers with rfl | ⟨hall, hlow⟩
    · obtain ⟨hown, hstate⟩ :=
        h.claimed c (mem_of_call? hcall).1 d' s multiple requeue hrequest
      obtain rfl := h.distinct d d' _ hd hown
      exact ⟨s.state, s.state_ne, state?_release_of_ne hstate s.state_ne⟩
    · obtain ⟨state, hstate⟩ := hd.exists_state
      have hmem := (TagMap.mem_covered_settle h.assigned).mpr ⟨hpending, hall, hlow⟩
      refine ⟨s.mark state, s.mark_ne state, ?_⟩
      rw [state?_release, if_pos (List.mem_map_of_mem hmem), hstate, Option.map_some]

/-- The delivery waits, or is being settled by a call that came after `old` and that nobody has
accepted. -/
def Lost (m old : Machine) (d : Nat) : Prop :=
  m.channel.state? d = some .unacknowledged ∨
    ∃ c ∈ m.calls, c.request.delivery? = some d ∧ old.call? c.id = none ∧
      ((∃ wasOpen, c.phase = .asked wasOpen) ∨ ∃ error, c.phase = .decided (.refused error))

/-- A delivery that waits off the ledger goes on waiting, unless it is claimed. -/
theorem Sound.lost_step_of_waiting (h : m.Sound) {old : Machine} (hd : m.channel.Manual d k)
    (hoff : ¬m.channel.Tracks d) (hstate : m.channel.state? d = some .unacknowledged)
    (hold : ∀ call, e.issued? = some call → old.call? call = none) : (m.step e).1.Lost old d := by
  have hchange := m.step_transition e
  generalize (m.step e).1 = m' at hchange
  cases hchange with
  | idle | turned | passedOn | closing | aborted | refused | closeFailed | closeDone | answered |
    concluded | lost => exact .inl hstate
  | arrived => exact .inl ((state?_receive_of_lt hd.lt).trans hstate)
  | settledAlone hdelivery hmode =>
    exact .inl ((state?_modifyDelivery_of_ne (hd.ne_of_auto hdelivery hmode)).trans hstate)
  | @claimed call d' j s multiple requeue =>
    by_cases hne : d' = d
    · refine .inr ⟨m.settleCall call d' s multiple requeue j, by simp, ?_, hold call rfl, ?_⟩
      · rw [hne.symm]
        rfl
      · cases hopen : m.channel.isOpen with
        | true => exact .inl ⟨true, by simp [settleCall, hopen]⟩
        | false => exact .inr ⟨settleClosedError s j, by simp [settleCall, hopen]⟩
    · exact .inl ((state?_modifyDelivery_of_ne hne).trans hstate)
  | @accepted c d' s multiple requeue =>
    refine .inl ?_
    rw [channel_withChannel, state?_release, if_neg, hstate]
    intro hcovered
    obtain ⟨entry, hentry, rfl⟩ := List.mem_map.mp hcovered
    rw [TagMap.covered_settle h.assigned] at hentry
    exact hoff ⟨entry.1, (List.mem_filter.mp hentry).1⟩
  | @restored c d' =>
    by_cases hne : d' = d
    · subst hne
      exact .inl (state?_restore hstate)
    · exact .inl ((state?_modifyDelivery_of_ne hne).trans hstate)

/-- A delivery that is lost stays lost, as long as the transport refuses to settle it. -/
theorem Sound.lost_step (h : m.Sound) {old : Machine} (hd : m.channel.Manual d k)
    (hoff : ¬m.channel.Tracks d) (hlost : m.Lost old d) (hnew : e.NewFor m)
    (hold : ∀ call, e.issued? = some call → old.call? call = none)
    (hrefuses : ∀ call o all, e = .answered call o → old.call? call = none →
      m.asked? call = some (k, all) → o.isError = true) : (m.step e).1.Lost old d := by
  rcases hlost with hstate | ⟨c, hc, hdelivery, hcall, hphase⟩
  · exact h.lost_step_of_waiting hd hoff hstate hold
  have hfound : m.call? c.id = some c := h.unique.call?_eq_some_iff.mpr ⟨hc, rfl⟩
  obtain ⟨s, multiple, requeue, hrequest⟩ := Request.delivery?_eq_some_iff.mp hdelivery
  obtain ⟨htag, hstate⟩ := h.claimed c hc d s multiple requeue hrequest
  by_cases habout : e.call? = some c.id
  · have hkept (hsame : (m.step e).1 = m) : (m.step e).1.Lost old d := by
      rw [hsame]
      exact .inr ⟨c, hc, hdelivery, hcall, hphase⟩
    cases e with
    | issue call r => exact absurd rfl (hnew c.id habout c hc)
    | answered call o =>
      obtain rfl : call = c.id := Option.some.inj habout
      rcases hphase with ⟨wasOpen, hphase⟩ | ⟨error, hphase⟩
      · have hasked : m.asked? c.id = some (k, multiple.isTruthy) :=
          asked?_eq_some_iff.mpr ⟨c, d, s, multiple, requeue, wasOpen, hfound, hrequest, hphase,
            htag.tag_eq hd, rfl⟩
        have herror := hrefuses c.id o _ rfl hcall hasked
        unfold Outcome.isError at herror
        split at herror
        · rename_i name message fields
          obtain ⟨error, hstep⟩ := step_refused hfound hrequest hphase name message fields
          rw [hstep]
          exact .inr ⟨_, mem_calls_decided.mpr (.inr rfl), hdelivery, hcall, .inr ⟨error, rfl⟩⟩
        · cases herror
      · exact hkept (by simp only [Machine.step, hfound, answer, hphase])
    | heard call =>
      obtain rfl : call = c.id := Option.some.inj habout
      rcases hphase with ⟨wasOpen, hphase⟩ | ⟨error, hphase⟩
      · exact hkept (by simp only [Machine.step, hfound, hear, hphase])
      · rw [step_heard_of_refused hfound hrequest hphase]
        exact .inl (state?_restore hstate)
    | _ => cases habout
  · refine .inr ⟨c, ?_, hdelivery, hcall, hphase⟩
    rw [← call?_step_of_ne habout] at hfound
    exact (mem_of_call? hfound).1

end Machine

/-- The transport refuses, with an error, to settle a tag that it has been asked for after it
accepted a settlement that covers it. -/
def RefusesCovered (id : String) (events : List Event) : Prop :=
  ∀ u e v n all, events = u ++ e :: v → (reached id u).Accepts e n all →
    ∀ x call o y k all', v = x ++ .answered call o :: y → (reached id u).call? call = none →
      (reached id (u ++ e :: x)).asked? call = some (k, all') → Covers n all k → o.isError = true

/-- The delivery left the ledger of an open channel with a settlement that covered it, while one of
its own was in flight, and that one was refused. -/
def Crossed (id : String) (events : List Event) (d : Nat) : Prop :=
  ∃ u e x call v, events = u ++ e :: (x ++ .heard call :: v) ∧ (reached id u).Releases e d ∧
    (∃ c ∈ (reached id u).calls, c.id = call ∧ c.request.delivery? = some d) ∧
    (reached id (u ++ e :: x)).Refuses call d

variable {id : String} {events u v : List Event} {d n k : Nat}

/-- A channel that is open after a run was open all the time. -/
theorem isOpen_of_append (h : (reached id (u ++ v)).channel.isOpen = true) :
    (reached id u).channel.isOpen = true := by
  rw [isOpen_reached_iff] at h ⊢
  rintro x e y rfl
  exact h x e (y ++ v) (by simp)

/-- A delivery that has to be settled stays one to the end of a run. -/
theorem Manual.append (hd : (reached id u).channel.Manual d k) (v : List Event) :
    (reached id (u ++ v)).channel.Manual d k :=
  reached_keeps (P := fun m => m.channel.Manual d k) hd v fun _ e _ _ h => h.step e

/-- Who is off the ledger at one point of a run stays off it. -/
theorem Numbered.not_tracks_append (hnumbered : Numbered (u ++ v)) (htagged : Tagged (u ++ v))
    (hd : (reached id u).channel.Manual d k) (hoff : ¬(reached id u).channel.Tracks d) :
    ¬(reached id (u ++ v)).channel.Tracks d := by
  refine reached_keeps (P := fun m => ¬m.channel.Tracks d) hoff v ?_
  rintro x e y rfl hx
  have hwhole : u ++ (x ++ e :: y) = (u ++ x) ++ e :: y := (List.append_assoc ..).symm
  rw [hwhole] at hnumbered htagged
  have hsound : (reached id (u ++ x)).Sound :=
    hnumbered.of_append_left.sound htagged.of_append_left
  exact hsound.not_tracks_step htagged.freshFor (hd.append x) hx

/-- A delivery that is lost once it is off the ledger stays lost, as long as the transport refuses
what it has accepted before. -/
theorem Numbered.lost_append {e : Event} {w : List Event} (hnumbered : Numbered (u ++ e :: w ++ v))
    (htagged : Tagged (u ++ e :: w ++ v)) (hrefuses : RefusesCovered id (u ++ e :: w ++ v))
    (hd : (reached id u).channel.Manual d k) (hreleases : (reached id u).Releases e d)
    (hlost : (reached id (u ++ e :: w)).Lost (reached id u) d) :
    (reached id (u ++ e :: w ++ v)).Lost (reached id u) d := by
  have hu : (reached id u).Sound :=
    hnumbered.of_append_left.of_append_left.sound htagged.of_append_left.of_append_left
  have hfresh : e.FreshFor (reached id u) := htagged.of_append_left.freshFor
  obtain ⟨n, all, haccepts, hcovers, _⟩ := hu.released hfresh hd hreleases
  refine reached_keeps (P := fun m => m.Lost (reached id u) d) hlost v ?_
  rintro y e' z rfl hy
  have hwhole : u ++ e :: w ++ (y ++ e' :: z) = u ++ (e :: w ++ y) ++ e' :: z := by simp
  rw [hwhole] at hnumbered htagged
  rw [List.append_assoc] at hy ⊢
  have hsound : (reached id (u ++ (e :: w ++ y))).Sound :=
    hnumbered.of_append_left.sound htagged.of_append_left
  have hoff : ¬(reached id (u ++ (e :: w ++ y))).channel.Tracks d := by
    have hcut : u ++ (e :: w ++ y) = u ++ [e] ++ (w ++ y) := by simp
    have hleft : ¬(reached id (u ++ [e])).channel.Tracks d := by
      rw [reached_concat]
      exact hreleases.2.1
    rw [hcut] at hnumbered htagged ⊢
    exact hnumbered.of_append_left.not_tracks_append htagged.of_append_left (hd.append [e]) hleft
  refine hsound.lost_step (hd.append _) hoff hy hnumbered.newFor ?_ ?_
  · exact fun call he' => hnumbered.call?_eq_none he'
  · rintro call o all' rfl hnone hasked
    exact hrefuses u e (w ++ (y ++ .answered call o :: z)) n all (by simp) haccepts (w ++ y) call o
      z k all' (by simp) hnone hasked hcovers

/-- A covered delivery that is given back after all waits when its settlements are over. -/
theorem Crossed.waits (hcrossed : Crossed id events d) (hnumbered : Numbered events)
    (htagged : Tagged events) (hrefuses : RefusesCovered id events)
    (hquiet : ¬(reached id events).Settling d) :
    (reached id events).channel.state? d = some .unacknowledged := by
  obtain ⟨u, e, x, call, v, rfl, hreleases, _, hrefused⟩ := hcrossed
  have hsound {w y : List Event} (hw : u ++ e :: (x ++ .heard call :: v) = w ++ y) :
      (reached id w).Sound := (hw ▸ hnumbered).of_append_left.sound (hw ▸ htagged).of_append_left
  have hu : (reached id u).Sound := hsound rfl
  have hx : (reached id (u ++ e :: x)).Sound := hsound (y := .heard call :: v) (by simp)
  obtain ⟨k, hd⟩ := hu.manual_of_tracks hreleases.1
  have hback : (reached id (u ++ e :: x ++ [.heard call])).Lost (reached id u) d := by
    obtain ⟨c, error, hcall, hdelivery, hphase⟩ := hrefused
    obtain ⟨hc, rfl⟩ := Machine.mem_of_call? hcall
    obtain ⟨s, multiple, requeue, hrequest⟩ := Request.delivery?_eq_some_iff.mp hdelivery
    have hstate := (hx.claimed c hc d s multiple requeue hrequest).2
    rw [reached_concat, Machine.step_heard_of_refused hcall hrequest hphase]
    exact .inl (state?_restore hstate)
  have hevents : u ++ e :: (x ++ .heard call :: v) = u ++ e :: (x ++ [.heard call]) ++ v := by simp
  have hpoint : u ++ e :: x ++ [.heard call] = u ++ e :: (x ++ [.heard call]) := by simp
  rw [hevents] at hnumbered htagged hrefuses hquiet ⊢
  rw [hpoint] at hback
  have hlost := hnumbered.lost_append htagged hrefuses hd hreleases hback
  rcases hlost with hstate | ⟨c, hc, hdelivery, _⟩
  · exact hstate
  · exact absurd ⟨c, hc, hdelivery⟩ hquiet

/-- The delivery is in a terminal state, and what is in flight to settle it has been so since
`old`. -/
def Machine.SettledSince (m old : Machine) (d : Nat) : Prop :=
  (∃ state, state ≠ .unacknowledged ∧ m.channel.state? d = some state) ∧
    ∀ c ∈ m.calls, c.request.delivery? = some d →
      ∃ c₀ ∈ old.calls, c₀.id = c.id ∧ c₀.request.delivery? = some d

/-- A delivery that is covered stays in a terminal state, unless it is given back after all. -/
theorem Numbered.settled_or_crossed {e : Event} (hnumbered : Numbered (u ++ e :: v))
    (htagged : Tagged (u ++ e :: v)) (hd : (reached id u).channel.Manual d k)
    (hreleases : (reached id u).Releases e d) :
    Crossed id (u ++ e :: v) d ∨
      ∃ state, state ≠ .unacknowledged ∧
        (reached id (u ++ e :: v)).channel.state? d = some state := by
  have hsound : (reached id u).Sound := hnumbered.of_append_left.sound htagged.of_append_left
  obtain ⟨n, all, ⟨call, reply, rfl, _⟩, _, hreleased⟩ :=
    hsound.released htagged.freshFor hd hreleases
  -- All settlements of the delivery that are in flight later on were so when it left the ledger.
  have hstart : (reached id (u ++ [.answered call (.replied reply)])).SettledSince (reached id u)
      d := by
    rw [reached_concat]
    refine ⟨hreleased, ?_⟩
    intro c hc hdelivery
    rcases settling_step hc hdelivery with hold | ⟨hissued, _⟩
    · exact hold
    · exact nomatch hissued
  have hevents : u ++ .answered call (.replied reply) :: v =
      u ++ [.answered call (.replied reply)] ++ v := by simp
  by_cases hend : (reached id (u ++ .answered call (.replied reply) :: v)).SettledSince
      (reached id u) d
  · exact .inr hend.1
  · rw [hevents] at hend
    obtain ⟨x, e, y, rfl, hx, hstep⟩ :=
      reached_ends (P := fun m => m.SettledSince (reached id u) d) hstart hend
    obtain ⟨⟨state, hne, hstate⟩, hcalls⟩ := hx
    rcases state?_step_of_ne hstate hne e with hstate' | ⟨c, s, multiple, requeue, error, rfl,
      hcall, hrequest, hphase⟩
    · refine absurd ⟨⟨state, hne, hstate'⟩, ?_⟩ hstep
      intro c hc hdelivery
      rcases settling_step hc hdelivery with ⟨c₀, hc₀, hid, hdelivery₀⟩ | ⟨_, hwaits⟩
      · exact hid ▸ hcalls c₀ hc₀ hdelivery₀
      · exact absurd (Option.some.inj (hstate.symm.trans hwaits)) hne
    · have hdelivery := Request.delivery?_of_settle hrequest
      refine .inl ⟨u, .answered call (.replied reply), x, c.id, y, rfl, hreleases, ?_, ?_⟩
      · exact hcalls c (Machine.mem_of_call? hcall).1 hdelivery
      · rw [← List.singleton_append, ← List.append_assoc]
        exact ⟨c, error, hcall, hdelivery, hphase⟩

/-- A delivery that waits when a settlement is accepted that covers it leaves the ledger of the
channel before or then. -/
theorem Numbered.releases_of_accepts {e : Event} {all : Bool} (hnumbered : Numbered (u ++ v ++ [e]))
    (htagged : Tagged (u ++ v ++ [e])) (hopen : (reached id (u ++ v)).channel.isOpen = true)
    (hd : (reached id u).channel.Manual d k) (htracked : (reached id u).channel.Tracks d)
    (haccepts : (reached id (u ++ v)).Accepts e n all) (hcovers : Covers n all k) :
    ∃ x e' y, v ++ [e] = x ++ e' :: y ∧ (reached id (u ++ x)).Releases e' d := by
  have hsound : (reached id (u ++ v)).Sound :=
    hnumbered.of_append_left.sound htagged.of_append_left
  have hoff : ¬(reached id (u ++ (v ++ [e]))).channel.Tracks d := by
    rw [← List.append_assoc, reached_concat]
    exact hsound.not_tracks_of_accepts (hd.append v) haccepts hcovers
  have hopen' : (reached id (u ++ (v ++ [e]))).channel.isOpen = true := by
    obtain ⟨call, reply, rfl, hasked⟩ := haccepts
    rw [← List.append_assoc, reached_concat, Machine.isOpen_step_iff]
    refine ⟨hopen, ?_⟩
    rintro ⟨c, wasOpen, hcall, hclose, _⟩
    obtain ⟨c', d', s, multiple, requeue, wasOpen', hcall', hrequest, _⟩ :=
      Machine.asked?_eq_some_iff.mp hasked
    rw [hcall] at hcall'
    cases hcall'
    exact nomatch (Request.isClose_of_settle hrequest).symm.trans hclose
  obtain ⟨x, e', y, hsplit, hx, hstep⟩ :=
    reached_ends (P := fun m => m.channel.Tracks d) htracked hoff
  refine ⟨x, e', y, hsplit, hx, hstep, ?_⟩
  have hcut : u ++ (v ++ [e]) = u ++ x ++ [e'] ++ y := by simp [hsplit]
  rw [hcut] at hopen'
  rw [← reached_concat]
  exact isOpen_of_append hopen'

/-- Once a `multiple` settlement of the tag `n` has been accepted on an open channel, a delivery
with a smaller tag `k` that was on the ledger before, and whose own settlements are over, is settled
for good exactly if none of them was refused after the delivery had left the ledger. -/
theorem final_iff_not_crossed {during after : List Event} {call : Nat} {reply : Value}
    (hnumbered : Numbered (u ++ during ++ .answered call (.replied reply) :: after))
    (htagged : Tagged (u ++ during ++ .answered call (.replied reply) :: after))
    (hrefuses : RefusesCovered id (u ++ during ++ .answered call (.replied reply) :: after))
    (htracked : (.assigned k, d) ∈ (reached id u).channel.pending) (hlow : k < n)
    (hasked : (reached id (u ++ during)).asked? call = some (n, true))
    (hopen : (reached id (u ++ during)).channel.isOpen = true)
    (hquiet : ¬(reached id (u ++ during ++ .answered call (.replied reply) :: after)).Settling d) :
    Final id (u ++ during ++ .answered call (.replied reply) :: after) d k ↔
      ¬Crossed id (u ++ during ++ .answered call (.replied reply) :: after) d := by
  have hsound : (reached id u).Sound :=
    hnumbered.of_append_left.of_append_left.sound htagged.of_append_left.of_append_left
  have hd : (reached id u).channel.Manual d k := by
    obtain ⟨j, hj, hd⟩ := hsound.ledger _ _ htracked
    cases hj
    exact hd
  have hcut : u ++ during ++ .answered call (.replied reply) :: after =
      u ++ during ++ [.answered call (.replied reply)] ++ after := by simp
  obtain ⟨x, e, y, hsplit, hreleases⟩ :=
    Numbered.releases_of_accepts (hcut ▸ hnumbered).of_append_left
      (hcut ▸ htagged).of_append_left hopen hd ⟨_, htracked⟩ ⟨call, reply, rfl, hasked⟩
      (.inr ⟨rfl, hlow⟩)
  constructor
  · rintro ⟨state, hne, hfinal⟩ hcrossed
    have hwaits := hcrossed.waits hnumbered htagged hrefuses hquiet
    have hstate := (hfinal []).1
    rw [List.append_nil, hwaits] at hstate
    exact hne (Option.some.inj hstate).symm
  · intro hcrossed
    have hwhole : u ++ during ++ .answered call (.replied reply) :: after =
        u ++ x ++ e :: (y ++ after) := by
      rw [hcut, List.append_assoc u, hsplit]
      simp
    rw [hwhole] at hnumbered htagged hquiet hcrossed ⊢
    rcases hnumbered.settled_or_crossed htagged (hd.append x) hreleases with h | ⟨state, hne,
      hstate⟩
    · exact absurd h hcrossed
    · exact final_of_settled ((hd.append x).append _) hstate hne hquiet

/-- Two messages arrive. The second is settled together with the first, which is claimed by a
settlement of its own before the transport has accepted that; the transport refuses the latter. -/
def overlapping : List Event :=
  [.arrived 0 .manual (messageOf 1), .arrived 0 .manual (messageOf 2),
    .issue 0 (.settle 1 .acknowledge (.bool true) .undefined),
    .issue 1 (.settle 0 .acknowledge (.bool false) .undefined),
    .answered 0 (.replied .undefined), .heard 0,
    .answered 1 (.threw (.error "Error" "Unknown delivery tag 1" [])), .heard 1]

/-- In that run the transport refuses what it has accepted before. -/
theorem refusesCovered_overlapping : RefusesCovered "c" overlapping := by
  rintro u e v n all he ⟨call, reply, rfl, _⟩ x call' o y k all' rfl _ _ _
  simp [overlapping, List.cons_eq_append_iff] at he
  have hrest := he.2.2.symm
  simp [List.cons_eq_append_iff] at hrest
  rw [hrest.2.1.2]
  rfl

/-- In that run the first delivery waits in the end. -/
theorem not_final_overlapping : ¬Final "c" overlapping 0 1 := by
  rintro ⟨state, hne, hfinal⟩
  have hstate := (hfinal []).1
  have hwaits : (reached "c" (overlapping ++ [])).channel.state? 0 = some .unacknowledged := rfl
  exact hne (Option.some.inj (hstate.symm.trans hwaits))

/-- In that run the first delivery is covered, and is given back after all. -/
theorem final_iff_not_crossed_overlapping :
    Numbered overlapping ∧ Tagged overlapping ∧ RefusesCovered "c" overlapping ∧
      ¬(reached "c" overlapping).Settling 0 ∧ Crossed "c" overlapping 0 := by
  have hnumbered : Numbered overlapping := by decide
  have htagged : Tagged overlapping := by decide
  have hquiet : ¬(reached "c" overlapping).Settling 0 := by decide
  have hiff : Final "c" overlapping 0 1 ↔ ¬Crossed "c" overlapping 0 :=
    @final_iff_not_crossed "c" (overlapping.take 2) 0 2 1 ((overlapping.drop 2).take 2)
      (overlapping.drop 5) 0 .undefined hnumbered htagged refusesCovered_overlapping
      (List.mem_cons_self ..) (by decide) rfl rfl hquiet
  have hcrossed := not_not.mp (mt hiff.mpr not_final_overlapping)
  exact ⟨hnumbered, htagged, refusesCovered_overlapping, hquiet, hcrossed⟩

/-- A delivery that a `multiple` settlement covers can come to wait again, off the ledger. -/
theorem exists_covered_not_final :
    ¬∀ (id : String) (u during after : List Event) (call : Nat) (reply : Value) (d n k : Nat),
      Numbered (u ++ during ++ .answered call (.replied reply) :: after) →
      Tagged (u ++ during ++ .answered call (.replied reply) :: after) →
      RefusesCovered id (u ++ during ++ .answered call (.replied reply) :: after) →
      (.assigned k, d) ∈ (reached id u).channel.pending → k < n →
      (reached id (u ++ during)).asked? call = some (n, true) →
      (reached id (u ++ during)).channel.isOpen = true →
      ¬(reached id (u ++ during ++ .answered call (.replied reply) :: after)).Settling d →
      Final id (u ++ during ++ .answered call (.replied reply) :: after) d k := by
  intro h
  have hfinal : Final "c" overlapping 0 1 :=
    h "c" (overlapping.take 2) ((overlapping.drop 2).take 2) (overlapping.drop 5) 0 .undefined 0 2 1
      (by decide) (by decide) refusesCovered_overlapping (List.mem_cons_self ..) (by decide) rfl rfl
      (by decide)
  exact not_final_overlapping hfinal

end Amqp.Channel
