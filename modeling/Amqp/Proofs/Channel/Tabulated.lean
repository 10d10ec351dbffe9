import Amqp.Proofs.Channel.Closing
import Amqp.Proofs.Channel.Orderly
import Amqp.Proofs.Channel.Table
import Mathlib.Data.List.Induction

/-!
# Channels that keep their table

What happens to a channel means something for its table, or nothing. As long as settlements do not
overlap, the channel with its ledger and its deliveries keeps exactly this table, step by step and
so in every run.
-/

namespace Amqp.Channel

namespace Machine

/-- What an event means for the table. -/
def observed? (m : Machine) : Event → Option Table.Event
  | .arrived _ .manual message => message.tag.number?.map .arrived
  | .issue _ (.abort _) => some .closed
  | .lost _ => if m.channel.closing then none else some .closed
  | .answered call (.replied _) =>
    match m.call? call with
    | some { phase := .asked _, request := .settle _ s multiple _, tag, .. } =>
      some (.accepted tag multiple.isTruthy s)
    | some { phase := .asked _, request := .close _, .. } => some .closed
    | _ => none
  | _ => none

/-- What a run means for the table. -/
def observed (m : Machine) : List Event → List Table.Event
  | [] => []
  | e :: rest => (m.observed? e).toList ++ (m.step e).1.observed rest

/-- What the last event of a run means comes last. -/
theorem observed_concat (m : Machine) (u : List Event) (e : Event) :
    m.observed (u ++ [e]) = m.observed u ++ ((m.run u).1.observed? e).toList := by
  induction u generalizing m with
  | nil => simp [observed, run]
  | cons e' u ih => simp [observed, ih, run]

/-- The table of a channel: its ledger is what is outstanding, and each delivery is in the state of
its tag. One that is claimed by a settlement that is not accepted still waits. -/
structure Tabulated (m : Machine) (t : Table) : Prop where
  isOpen : m.channel.isOpen = t.isOpen
  ledger : m.channel.pending.map (·.1) = t.outstanding.map .assigned
  held : ∀ d n, m.channel.Manual d n → m.Held d → t.state? n = some .unacknowledged
  state : ∀ d n, m.channel.Manual d n → ¬m.Held d → t.state? n = m.channel.state? d
  unknown : ∀ n, (∀ d, ¬m.channel.Manual d n) → t.state? n = none

end Machine

/-- No message comes with the event that has to be settled. -/
def Event.BringsNone (e : Event) : Prop := ∀ message, e.label? ≠ some (message, .manual)

namespace Machine

variable {m : Machine} {e : Event} {t : Table} {d n : Nat}

/-- With an event that means nothing for the table, no message comes that has to be settled. -/
theorem bringsNone_of_unobserved (hfresh : e.FreshFor m) (hobserved : m.observed? e = none) :
    e.BringsNone := by
  intro message hl
  cases e with
  | arrived consumer mode message' =>
    cases hl
    obtain ⟨n, htag, _⟩ := hfresh message rfl
    simp [observed?, htag, Tag.number?] at hobserved
  | _ => cases hl

/-- If no message comes that has to be settled, the manual deliveries are the same. -/
theorem manual_step_iff (hnone : e.BringsNone) :
    (m.step e).1.channel.Manual d n ↔ m.channel.Manual d n := by
  refine ⟨fun h => ?_, fun h => h.step e⟩
  rcases h.of_step with h | ⟨_, message, hl, _⟩
  · exact h
  · exact absurd hl (hnone message)

/-- A step that leaves the states and what is held alone keeps the table, but for what is
outstanding and whether the channel is open. -/
theorem Tabulated.step_of_same (h : m.Tabulated t) {t' : Table} (hnone : e.BringsNone)
    (hstate : t'.state? = t.state?) (hopen : (m.step e).1.channel.isOpen = t'.isOpen)
    (hledger : (m.step e).1.channel.pending.map (·.1) = t'.outstanding.map .assigned)
    (hstates : ∀ d n, m.channel.Manual d n →
      (m.step e).1.channel.state? d = m.channel.state? d)
    (hheld : ∀ d, (m.step e).1.Held d ↔ m.Held d) : (m.step e).1.Tabulated t' where
  isOpen := hopen
  ledger := hledger
  held d n hd hd' := by
    rw [hstate]
    exact h.held d n ((manual_step_iff hnone).mp hd) ((hheld d).mp hd')
  state d n hd hd' := by
    have hd := (manual_step_iff hnone).mp hd
    rw [hstate, hstates d n hd]
    exact h.state d n hd fun hyes => hd' ((hheld d).mpr hyes)
  unknown n hn := by
    rw [hstate]
    exact h.unknown n fun d hd => hn d (hd.step e)

/-- An event that closes the channel changes no delivery, and nothing about what is held. -/
theorem step_of_closes (hunique : m.UniqueIds) (hcloses : m.Closes e) :
    (∀ d, (m.step e).1.channel.state? d = m.channel.state? d) ∧
      ∀ d, (m.step e).1.Held d ↔ m.Held d := by
  cases e with
  | issue call r =>
    cases r with
    | abort params => exact ⟨fun _ => rfl, fun _ => held_push_iff rfl⟩
    | _ => exact hcloses.elim
  | answered call o =>
    cases o with
    | threw thrown => exact hcloses.elim
    | replied reply =>
      obtain ⟨c, wasOpen, hcall, hclose, hphase⟩ := hcloses
      obtain ⟨hc, rfl⟩ := mem_of_call? hcall
      cases hrequest : c.request with
      | close params =>
        have hstep : (m.step (.answered c.id (.replied reply))).1 = (m.withChannel
            ({ m.channel with closing := false } : Channel).markClosed).drop c.id := by
          simp only [step, hcall, answer, hphase, hrequest, answerClose]
        rw [hstep]
        exact ⟨fun _ => rfl, fun _ => held_drop_iff hunique hc (by rw [hrequest]; rfl)⟩
      | _ => simp [hrequest, Request.isClose] at hclose
  | lost error =>
    simp only [step, Channel.lost]
    split
    · exact ⟨fun _ => rfl, fun _ => .rfl⟩
    · exact ⟨fun _ => rfl, fun _ => .rfl⟩
  | _ => exact hcloses.elim

/-- An event that closes the channel leaves nothing outstanding. -/
theorem Tabulated.step_closed (h : m.Tabulated t) (hunique : m.UniqueIds) (hshut : m.Shut)
    (hcloses : m.Closes e) : (m.step e).1.Tabulated (t.step .closed) := by
  have hclosed := isOpen_step_of_closes hcloses
  have hnone : e.BringsNone := by
    cases e with
    | arrived => exact hcloses.elim
    | _ => exact fun _ => nofun
  obtain ⟨hstates, hheld⟩ := step_of_closes hunique hcloses
  refine h.step_of_same hnone rfl hclosed ?_ (fun d _ _ => hstates d) hheld
  rw [(hshut.step e) hclosed]
  rfl

/-- A message that has to be settled adds its tag, while the channel is open. -/
theorem Tabulated.step_arrived (h : m.Tabulated t) (hsound : m.Sound) {consumer : Nat}
    {message : Message} (hfresh : (Event.arrived consumer .manual message).FreshFor m)
    (htag : message.tag = .assigned n) :
    (m.step (.arrived consumer .manual message)).1.Tabulated (t.step (.arrived n)) := by
  cases hopen : m.channel.isOpen with
  | false =>
    have hstep : (m.step (.arrived consumer .manual message)).1 = m := by
      simp [step, arrive, hopen]
    have htable : t.step (.arrived n) = t := by
      simp [Table.step, ← h.isOpen, hopen]
    rw [hstep, htable]
    exact h
  | true =>
    have hstep : (m.step (.arrived consumer .manual message)).1 =
        { m with
          channel := m.channel.receive message .manual
          turns := m.turns ++ [⟨m.channel.deliveries.length, consumer⟩] } := by
      simp [step, arrive, hopen]
    have htable : t.step (.arrived n) =
        { t with
          state? := Function.update t.state? n (some .unacknowledged)
          outstanding := t.outstanding ++ [n] } := by
      simp [Table.step, ← h.isOpen, hopen]
    have hold {d k : Nat} := hfresh.manual_arrived htag (d := d) (k := k)
    have hkept {d k : Nat} (hd : m.channel.Manual d k) :=
      hd.step (.arrived consumer .manual message)
    rw [hstep] at hold hkept ⊢
    rw [htable]
    constructor
    · exact h.isOpen
    · change (m.channel.receive message .manual).pending.map (·.1) = _
      rw [hsound.pending_receive htag (hfresh.not_manual rfl htag), List.map_append, h.ledger,
        List.map_append]
      rfl
    · intro d k hd hheld
      rcases hold hd with ⟨hd, hk⟩ | ⟨rfl, rfl⟩
      · exact (Function.update_of_ne hk ..).trans (h.held d k hd hheld)
      · exact absurd hheld hsound.not_held_length
    · intro d k hd hheld
      rcases hold hd with ⟨hd, hk⟩ | ⟨rfl, rfl⟩
      · refine (Function.update_of_ne hk ..).trans ?_
        rw [h.state d k hd hheld]
        exact (state?_receive_of_lt hd.lt).symm
      · exact (Function.update_self ..).trans (state?_receive_self ..).symm
    · intro k hk
      have hne : k ≠ n := by
        rintro rfl
        exact hk _ (manual_receive htag)
      exact (Function.update_of_ne hne ..).trans (h.unknown k fun d hd => hk d (hkept hd))

/-- The ledger has a tag exactly if the tag is outstanding. -/
theorem Tabulated.mem_pending_iff (h : m.Tabulated t) (hsound : m.Sound)
    (hd : m.channel.Manual d n) : (.assigned n, d) ∈ m.channel.pending ↔ n ∈ t.outstanding := by
  have htags : .assigned n ∈ m.channel.pending.map (·.1) ↔ n ∈ t.outstanding := by
    rw [h.ledger, List.mem_map]
    constructor
    · rintro ⟨k, hk, he⟩
      cases he
      exact hk
    · exact fun hn => ⟨n, hn, rfl⟩
  rw [← htags, List.mem_map]
  constructor
  · exact fun hmem => ⟨_, hmem, rfl⟩
  · rintro ⟨⟨t', d'⟩, hmem, rfl⟩
    obtain ⟨k, hk, hd'⟩ := hsound.ledger _ d' hmem
    cases hk
    rwa [hsound.distinct d d' n hd hd']

/-- What a settlement keeps on the ledger is what it leaves outstanding. -/
theorem Tabulated.kept_eq (h : m.Tabulated t) (hsound : m.Sound) (n : Nat) (all : Bool)
    (s : Settlement) :
    (m.channel.pending.settle (.assigned n) all).kept.map (·.1) =
      (t.step (.accepted n all s)).outstanding.map .assigned := by
  have hfilter : (m.channel.pending.filter fun entry => !entry.1.coveredBy n all).map (·.1) =
      (m.channel.pending.map (·.1)).filter fun tag => !tag.coveredBy n all := by
    rw [List.filter_map]
    rfl
  rw [TagMap.kept_settle hsound.assigned, hfilter, h.ledger, List.filter_map]
  congr 1
  apply List.filter_congr
  intro k _
  simp [Tag.coveredBy]

/-- Besides its own tag a settlement covers the smaller ones that are outstanding. -/
theorem Tabulated.mem_covered_iff (h : m.Tabulated t) (hsound : m.Sound) {k : Nat} {all : Bool}
    (hd : m.channel.Manual d k) :
    d ∈ ((m.channel.pending.settle (.assigned n) all).covered).map (·.2) ↔
      all = true ∧ k < n ∧ k ∈ t.outstanding := by
  rw [← h.mem_pending_iff hsound hd, List.mem_map]
  constructor
  · rintro ⟨⟨tag, d⟩, hmem, rfl⟩
    have hpending := hmem
    rw [TagMap.covered_settle hsound.assigned] at hpending
    obtain ⟨j, rfl, hj⟩ := hsound.ledger tag d (List.mem_filter.mp hpending).1
    obtain rfl := hd.tag_eq hj
    obtain ⟨hledger, hall, hlow⟩ := (TagMap.mem_covered_settle hsound.assigned).mp hmem
    exact ⟨hall, hlow, hledger⟩
  · rintro ⟨hall, hlow, hledger⟩
    exact ⟨_, (TagMap.mem_covered_settle hsound.assigned).mpr ⟨hledger, hall, hlow⟩, rfl⟩

/-- A release finds the other deliveries in the state that the table has for their tags. -/
theorem Tabulated.state?_release (h : m.Tabulated t) (hsound : m.Sound) (htable : t.Sound)
    {k : Nat} {all : Bool} (hd : m.channel.Manual d k) (hfree : ¬m.Held d) (hk : k ≠ n)
    (s : Settlement) :
    (t.step (.accepted n all s)).state? k = (m.channel.release n s all).1.state? d := by
  have hwas := h.state d k hd hfree
  rw [Channel.state?_release]
  by_cases hcovered : all = true ∧ k < n ∧ k ∈ t.outstanding
  · have hwaits := ((htable k).mp hcovered.2.2).2
    rw [if_pos ((h.mem_covered_iff hsound hd).mpr hcovered), ← hwas, hwaits]
    exact if_pos (.inr hcovered)
  · rw [if_neg fun hyes => hcovered ((h.mem_covered_iff hsound hd).mp hyes), ← hwas]
    exact if_neg (not_or.mpr ⟨hk, hcovered⟩)

/-- A settlement that is accepted moves its own tag and the outstanding ones that it covers. -/
theorem Tabulated.step_accepted (h : m.Tabulated t) (hsound : m.Sound) (horderly : m.Orderly)
    (htable : t.Sound) {c : Call} {s : Settlement} {multiple requeue reply : Value} {wasOpen : Bool}
    (hcall : m.call? c.id = some c) (hrequest : c.request = .settle d s multiple requeue)
    (hphase : c.phase = .asked wasOpen) :
    (m.step (.answered c.id (.replied reply))).1.Tabulated
      (t.step (.accepted c.tag multiple.isTruthy s)) := by
  have hc := (mem_of_call? hcall).1
  have hdelivery := Request.delivery?_of_settle hrequest
  have hnone : (Event.answered c.id (.replied reply)).BringsNone := fun _ => nofun
  obtain ⟨hown, hstate⟩ := hsound.claimed c hc d s multiple requeue hrequest
  have hstep := Machine.step_accepted hcall hrequest hphase (hsound.fault_release ..) reply
  have hheld (d' : Nat) : ¬(m.step (.answered c.id (.replied reply))).1.Held d' := by
    rw [hstep]
    exact fun hyes => ((horderly.held_decided_iff hc hdelivery .accepted).mp hyes).2 rfl
  constructor
  · rw [hstep]
    exact (isOpen_release ..).trans h.isOpen
  · rw [hstep, channel_withChannel, pending_release]
    exact h.kept_eq hsound ..
  · exact fun d' k _ hd' => absurd hd' (hheld d')
  · intro d' k hd' _
    have hd' := (manual_step_iff hnone).mp hd'
    rw [hstep, channel_withChannel]
    by_cases hsame : d' = d
    · subst hsame
      rw [state?_release_of_ne hstate s.state_ne]
      exact if_pos (.inl (hd'.tag_eq hown))
    · have hk : k ≠ c.tag := by
        rintro rfl
        exact hsame (hsound.distinct d' d _ hd' hown)
      have hfree : ¬m.Held d' := fun hyes => hsame ((horderly.held_iff hc hdelivery).mp hyes).1
      exact h.state?_release hsound htable hd' hfree hk s
  · intro k hk
    have hne : k ≠ c.tag := by
      rintro rfl
      exact hk d (hown.step _)
    have hunknown := h.unknown k fun d' hd' => hk d' (hd'.step _)
    have hout : k ∉ t.outstanding := by
      intro hmem
      exact nomatch hunknown.symm.trans ((htable k).mp hmem).2
    refine (if_neg ?_).trans hunknown
    rintro (hyes | ⟨_, _, hmem⟩)
    · exact hne hyes
    · exact hout hmem

/-- A settlement that claims its delivery leaves it waiting in the table. -/
theorem Tabulated.step_claimed (h : m.Tabulated t) {call : Nat} {s : Settlement}
    {multiple requeue : Value} {delivery : Delivery}
    (hfree : ∀ c ∈ m.calls, c.request.delivery? = none)
    (hd : m.channel.deliveries[d]? = some delivery) (hawaits : delivery.Awaits n) :
    ((m.withChannel (m.claimed d s)).push
      (m.settleCall call d s multiple requeue n)).Tabulated t := by
  have hwas (d' : Nat) : ¬m.Held d' := by
    rintro ⟨c, hc, hd', _⟩
    cases (hfree c hc).symm.trans hd'
  have hheld (d' : Nat) : ((m.withChannel (m.claimed d s)).push
      (m.settleCall call d s multiple requeue n)).Held d' ↔ d' = d := by
    constructor
    · rintro ⟨c, hc, hd', _⟩
      rcases mem_calls_push.mp hc with hc | rfl
      · cases (hfree c hc).symm.trans hd'
      · exact (Option.some.inj hd').symm
    · rintro rfl
      refine ⟨_, mem_calls_push.mpr (.inr rfl), rfl, ?_⟩
      simp only [settleCall]
      split <;> rintro ⟨⟩
  have hmanual {d' k : Nat} : (m.claimed d s).Manual d' k ↔ m.channel.Manual d' k := by
    simp only [Manual, labels_claimed]
  have hstate : m.channel.state? d = some .unacknowledged := by
    rw [state?, hd, Option.map_some, hawaits.2.2]
  constructor
  · exact h.isOpen
  · exact h.ledger
  · intro d' k hd' hyes
    obtain rfl := (hheld d').mp hyes
    exact (h.state d' k (hmanual.mp hd') (hwas d')).trans hstate
  · intro d' k hd' hnot
    have hne : d ≠ d' := fun he => hnot ((hheld d').mpr he.symm)
    rw [h.state d' k (hmanual.mp hd') (hwas d')]
    exact (state?_modifyDelivery_of_ne hne).symm
  · exact fun k hk => h.unknown k fun d' hd' => hk d' (hmanual.mpr hd')

/-- A settlement that is refused gives back what the table has as waiting. -/
theorem Tabulated.step_restored (h : m.Tabulated t) (hsound : m.Sound) (horderly : m.Orderly)
    {c : Call} {s : Settlement} {multiple requeue : Value} {error : OperationError}
    (hcall : m.call? c.id = some c) (hrequest : c.request = .settle d s multiple requeue)
    (hphase : c.phase = .decided (.refused error)) :
    ((m.withChannel (m.channel.modifyDelivery d Delivery.restore)).drop c.id).Tabulated t := by
  have hc := (mem_of_call? hcall).1
  have hdelivery := Request.delivery?_of_settle hrequest
  have hstate := (hsound.claimed c hc d s multiple requeue hrequest).2
  have hheld (d' : Nat) : ¬(m.drop c.id).Held d' := horderly.not_held_drop hc hdelivery
  have hmanual {d' k : Nat} :
      (m.channel.modifyDelivery d Delivery.restore).Manual d' k ↔ m.channel.Manual d' k := by
    simp only [Manual, labels_restore]
  constructor
  · exact h.isOpen
  · exact h.ledger
  · exact fun d' k _ hyes => absurd hyes (hheld d')
  · intro d' k hd' _
    have hd' := hmanual.mp hd'
    change _ = (m.channel.modifyDelivery d Delivery.restore).state? d'
    by_cases hsame : d = d'
    · subst hsame
      rw [state?_restore hstate]
      exact h.held d k hd' ⟨c, hc, hdelivery, by rw [hphase]; rintro ⟨⟩⟩
    · rw [state?_modifyDelivery_of_ne hsame]
      exact h.state d' k hd' fun hyes => hsame ((horderly.held_iff hc hdelivery).mp hyes).1.symm
  · exact fun k hk => h.unknown k fun d' hd' => hk d' (hmanual.mpr hd')

/-- A settlement that is accepted means a settlement for the table. -/
theorem observed?_of_accepted {c : Call} {s : Settlement} {multiple requeue : Value}
    {wasOpen : Bool} (hcall : m.call? c.id = some c)
    (hrequest : c.request = .settle d s multiple requeue) (hphase : c.phase = .asked wasOpen)
    (reply : Value) :
    m.observed? (.answered c.id (.replied reply)) =
      some (.accepted c.tag multiple.isTruthy s) := by
  obtain ⟨call, request, summary, tag, phase⟩ := c
  subst hrequest hphase
  simp only [observed?, hcall]

/-- A close that succeeds means the end for the table. -/
theorem observed?_of_closeDone {c : Call} {wasOpen : Bool} (hcall : m.call? c.id = some c)
    (hclose : c.request.isClose = true) (hphase : c.phase = .asked wasOpen) (reply : Value) :
    m.observed? (.answered c.id (.replied reply)) = some .closed := by
  obtain ⟨call, request, summary, tag, phase⟩ := c
  subst hphase
  cases request with
  | close params => simp only [observed?, hcall]
  | _ => exact nomatch hclose

/-- An event that means nothing for the table leaves it as it is. -/
theorem Tabulated.step_unobserved (h : m.Tabulated t) (hsound : m.Sound) (horderly : m.Orderly)
    (hfresh : e.FreshFor m) (hserial : e.SerialFor m) (hobserved : m.observed? e = none) :
    (m.step e).1.Tabulated t := by
  have hnone := bringsNone_of_unobserved hfresh hobserved
  have hsame {m' : Machine} (hm' : (m.step e).1 = m')
      (hopen : m'.channel.isOpen = m.channel.isOpen)
      (hledger : m'.channel.pending = m.channel.pending)
      (hstates : ∀ d n, m.channel.Manual d n → m'.channel.state? d = m.channel.state? d)
      (hheld : ∀ d, m'.Held d ↔ m.Held d) : m'.Tabulated t := by
    subst hm'
    exact h.step_of_same hnone rfl (hopen.trans h.isOpen) (hledger ▸ h.ledger) hstates hheld
  have hchange := m.step_transition e
  generalize hm' : (m.step e).1 = m' at hchange ⊢
  cases hchange with
  | idle | turned => exact hsame hm' rfl rfl (fun _ _ _ => rfl) fun _ => .rfl
  | @arrived consumer mode message =>
    cases mode with
    | auto =>
      exact hsame hm' rfl rfl (fun _ _ hd => state?_receive_of_lt hd.lt) fun _ => .rfl
    | manual => exact absurd rfl (hnone message)
  | settledAlone hdelivery hmode =>
    exact hsame hm' rfl rfl
      (fun _ _ hd => state?_modifyDelivery_of_ne (hd.ne_of_auto hdelivery hmode)) fun _ => .rfl
  | claimed hd hawaits => exact h.step_claimed (hserial _ _ rfl nofun) hd hawaits
  | passedOn _ hsettle =>
    exact hsame hm' rfl rfl (fun _ _ _ => rfl) fun _ => held_push_iff hsettle
  | closing => exact hsame hm' rfl rfl (fun _ _ _ => rfl) fun _ => held_push_iff rfl
  | aborted => exact nomatch hobserved
  | accepted hcall hrequest hphase =>
    exact nomatch (observed?_of_accepted hcall hrequest hphase _).symm.trans hobserved
  | @refused c d s multiple requeue thrown wasOpen hcall hrequest hphase =>
    have hc := (mem_of_call? hcall).1
    have hdelivery := Request.delivery?_of_settle hrequest
    refine hsame hm' rfl rfl (fun _ _ _ => rfl) fun d' => ?_
    rw [horderly.held_decided_iff hc hdelivery, horderly.held_iff hc hdelivery, hphase]
    simp [verdictOf_threw_ne]
  | closeFailed hcall hclose =>
    refine hsame hm' rfl rfl (fun _ _ _ => rfl) fun _ => ?_
    exact held_drop_iff hsound.unique (mem_of_call? hcall).1 (Request.delivery?_of_isClose hclose)
  | closeDone hcall hclose hphase =>
    exact nomatch (observed?_of_closeDone hcall hclose hphase _).symm.trans hobserved
  | answered hcall hsettle =>
    refine hsame hm' rfl rfl (fun _ _ _ => rfl) fun _ => ?_
    exact held_drop_iff hsound.unique (mem_of_call? hcall).1 hsettle
  | restored hcall hrequest hphase => exact h.step_restored hsound horderly hcall hrequest hphase
  | @concluded c d s multiple requeue v hcall hrequest hphase hv =>
    have hc := (mem_of_call? hcall).1
    have hdelivery := Request.delivery?_of_settle hrequest
    have haccepted := horderly.accepted_of_not_refused hc hphase hv
    refine hsame hm' rfl rfl (fun _ _ _ => rfl) fun d' => ?_
    refine iff_of_false (horderly.not_held_drop hc hdelivery) fun hyes => ?_
    exact ((horderly.held_iff hc hdelivery).mp hyes).2 haccepted
  | lost _ hclosing => simp [observed?, hclosing] at hobserved

/-- Every step of a channel is a step of its table, or leaves it as it is. -/
theorem Tabulated.step (h : m.Tabulated t) (hsound : m.Sound) (horderly : m.Orderly)
    (hshut : m.Shut) (htable : t.Sound) (hfresh : e.FreshFor m) (hserial : e.SerialFor m) :
    (m.step e).1.Tabulated ((m.observed? e).toList.foldl Table.step t) := by
  have hquiet (hobserved : m.observed? e = none) :
      (m.step e).1.Tabulated ((m.observed? e).toList.foldl Table.step t) := by
    rw [hobserved]
    exact h.step_unobserved hsound horderly hfresh hserial hobserved
  have hclosed (hobserved : m.observed? e = some .closed) (hcloses : m.Closes e) :
      (m.step e).1.Tabulated ((m.observed? e).toList.foldl Table.step t) := by
    rw [hobserved]
    exact h.step_closed hsound.unique hshut hcloses
  cases e with
  | issue call r =>
    cases r with
    | abort params => exact hclosed rfl trivial
    | _ => exact hquiet rfl
  | lost error =>
    cases hclosing : m.channel.closing with
    | true => exact hquiet (by simp [observed?, hclosing])
    | false => exact hclosed (by simp [observed?, hclosing]) hclosing
  | arrived consumer mode message =>
    cases mode with
    | auto => exact hquiet rfl
    | manual =>
      obtain ⟨n, htag, _⟩ := hfresh message rfl
      have hobserved : m.observed? (.arrived consumer .manual message) = some (.arrived n) := by
        simp [observed?, htag, Tag.number?]
      rw [hobserved]
      exact h.step_arrived hsound hfresh htag
  | answered call o =>
    cases o with
    | threw thrown => exact hquiet rfl
    | replied reply =>
      cases hcall : m.call? call with
      | none => exact hquiet (by simp only [observed?, hcall])
      | some c =>
        obtain rfl := (mem_of_call? hcall).2
        obtain ⟨call, request, summary, tag, phase⟩ := c
        cases phase with
        | decided v => exact hquiet (by simp only [observed?, hcall])
        | asked wasOpen =>
          cases request with
          | settle d s multiple requeue =>
            rw [observed?_of_accepted hcall rfl rfl]
            exact h.step_accepted hsound horderly htable hcall rfl rfl
          | close params =>
            exact hclosed (observed?_of_closeDone hcall rfl rfl reply)
              ⟨_, wasOpen, hcall, rfl, rfl⟩
          | _ => exact hquiet (by simp only [observed?, hcall])
  | _ => exact hquiet rfl

/-- While the channel is open, those on the ledger are the deliveries that wait in the table. -/
theorem Tabulated.tracks_iff (h : m.Tabulated t) (hsound : m.Sound) (htable : t.Sound)
    (hopen : m.channel.isOpen = true) :
    m.channel.Tracks d ↔ ∃ n, m.channel.Manual d n ∧ t.state? n = some .unacknowledged := by
  constructor
  · intro htracks
    obtain ⟨n, hd⟩ := hsound.manual_of_tracks htracks
    have hpending := (hsound.tracks_iff hd).mp htracks
    exact ⟨n, hd, ((htable n).mp ((h.mem_pending_iff hsound hd).mp hpending)).2⟩
  · rintro ⟨n, hd, hwaits⟩
    have hout : n ∈ t.outstanding := (htable n).mpr ⟨h.isOpen ▸ hopen, hwaits⟩
    exact (hsound.tracks_iff hd).mpr ((h.mem_pending_iff hsound hd).mpr hout)

/-- While the channel is open, the ledger counts the manual deliveries that wait in the table. -/
theorem Tabulated.unsettledCount_eq (h : m.Tabulated t) (hsound : m.Sound) (htable : t.Sound)
    (hopen : m.channel.isOpen = true) :
    m.channel.unsettledCount = m.channel.deliveries.countP fun x =>
      x.mode = .manual ∧ x.message.tag.number?.bind t.state? = some .unacknowledged := by
  refine hsound.unsettledCount_eq fun d => ?_
  rw [h.tracks_iff hsound htable hopen]
  constructor
  · rintro ⟨n, hd, hwaits⟩
    obtain ⟨x, hx, hmode, htag⟩ := manual_iff.mp hd
    exact ⟨x, hx, by simp [hmode, htag, Tag.number?, hwaits]⟩
  · rintro ⟨x, hx, hp⟩
    obtain ⟨hmode, hbind⟩ := of_decide_eq_true hp
    obtain ⟨n, htag, hwaits⟩ := Option.bind_eq_some_iff.mp hbind
    cases hassigned : x.message.tag with
    | irregular v => cases (congrArg Tag.number? hassigned).symm.trans htag
    | assigned k =>
      rw [hassigned] at htag
      cases htag
      exact ⟨n, manual_iff.mpr ⟨x, hx, hmode, hassigned⟩, hwaits⟩

/-- While the channel is open and no settlement is in flight, the ledger counts the manual
deliveries that wait. -/
theorem Tabulated.unsettledCount_eq_of_quiet (h : m.Tabulated t) (hsound : m.Sound)
    (htable : t.Sound)
    (hmanual : ∀ d x, m.channel.deliveries[d]? = some x → x.mode = .manual →
      ∃ n, m.channel.Manual d n)
    (hopen : m.channel.isOpen = true) (hquiet : ∀ c ∈ m.calls, c.request.delivery? = none) :
    m.channel.unsettledCount = m.channel.deliveries.countP fun x =>
      x.mode = .manual ∧ x.state = .unacknowledged := by
  have hstate {d n : Nat} {x : Delivery} (hd : m.channel.Manual d n)
      (hx : m.channel.deliveries[d]? = some x) : t.state? n = some x.state := by
    have hfree : ¬m.Held d := by
      rintro ⟨c, hc, hdelivery, _⟩
      exact nomatch (hquiet c hc).symm.trans hdelivery
    rw [h.state d n hd hfree, state?, hx, Option.map_some]
  refine hsound.unsettledCount_eq fun d => ?_
  rw [h.tracks_iff hsound htable hopen]
  constructor
  · rintro ⟨n, hd, hwaits⟩
    obtain ⟨x, hx, hmode, _⟩ := manual_iff.mp hd
    rw [hstate hd hx] at hwaits
    exact ⟨x, hx, decide_eq_true ⟨hmode, Option.some.inj hwaits⟩⟩
  · rintro ⟨x, hx, hp⟩
    obtain ⟨hmode, hunack⟩ := of_decide_eq_true hp
    obtain ⟨n, hd⟩ := hmanual d x hx hmode
    exact ⟨n, hd, by rw [hstate hd hx, hunack]⟩

end Machine

/-- The table of a run. -/
def tableOf (id : String) (events : List Event) : Table :=
  ((opened id).observed events).foldl Table.step {}

/-- Settlements of a run do not overlap: none is issued while another one is in flight. -/
def Serial (id : String) (events : List Event) : Prop :=
  ∀ u e v, events = u ++ e :: v → e.SerialFor (reached id u)

/-- Whatever is thrown in a run can be described. -/
def Described (events : List Event) : Prop := ∀ e ∈ events, e.Described

variable {id : String} {events : List Event}

/-- The last event of a run is one step of its table, or none. -/
theorem tableOf_concat (id : String) (u : List Event) (e : Event) :
    tableOf id (u ++ [e]) =
      ((reached id u).observed? e).toList.foldl Table.step (tableOf id u) := by
  rw [tableOf, Machine.observed_concat, List.foldl_append]
  rfl

/-- The table of a run is sound. -/
theorem sound_tableOf (id : String) (events : List Event) : (tableOf id events).Sound := by
  rw [tableOf]
  generalize (opened id).observed events = es
  induction es using List.reverseRecOn with
  | nil => exact Table.sound_empty
  | append_singleton es e ih =>
    rw [List.foldl_append]
    exact ih.step e

/-- A part of a serial run is one too. -/
theorem Serial.of_append_left {xs ys : List Event} (h : Serial id (xs ++ ys)) : Serial id xs := by
  rintro u e v rfl
  exact h u e (v ++ ys) (by simp)

/-- A run without overlap leaves the channel orderly, and with the table of the run. -/
theorem orderly_and_tabulated (hnumbered : Numbered events) (htagged : Tagged events)
    (hserial : Serial id events) (hdescribed : Described events) :
    (reached id events).Orderly ∧ (reached id events).Tabulated (tableOf id events) := by
  induction events using List.reverseRecOn with
  | nil =>
    refine ⟨⟨?_, ?_⟩, rfl, rfl, ?_, ?_, fun _ _ => rfl⟩
    · exact fun _ hc => nomatch hc
    · exact fun _ hc => nomatch hc
    · exact fun _ _ _ ⟨_, hc, _⟩ => nomatch hc
    · rintro d n ⟨message, hd, _⟩
      exact nomatch hd
  | append_singleton u e ih =>
    have hsound : (reached id u).Sound :=
      hnumbered.of_append_left.sound htagged.of_append_left
    obtain ⟨horderly, htabulated⟩ := ih hnumbered.of_append_left htagged.of_append_left
      hserial.of_append_left fun e he => hdescribed e (List.mem_append_left _ he)
    have hstep : e.SerialFor (reached id u) := hserial u e [] rfl
    rw [reached_concat, tableOf_concat]
    exact ⟨horderly.step hsound hnumbered.newFor hstep (hdescribed e (by simp)),
      htabulated.step hsound horderly (reached_shut id u) (sound_tableOf id u) htagged.freshFor
        hstep⟩

/-- As long as settlements do not overlap and refusals can be described, a channel keeps its table:
its ledger is what is outstanding, and each delivery is in the state of its tag. While the channel
is open, the ledger counts the manual deliveries that wait in the table; if no settlement is in
flight, these are the manual deliveries that wait. A delivery that is settled in the table refuses
every further settlement and asks nobody. -/
theorem tabulated_reached (hnumbered : Numbered events) (htagged : Tagged events)
    (hserial : Serial id events) (hdescribed : Described events) :
    (reached id events).Tabulated (tableOf id events) ∧
    ((reached id events).channel.isOpen = true →
      (reached id events).channel.unsettledCount =
        (reached id events).channel.deliveries.countP fun x => x.mode = .manual ∧
          x.message.tag.number?.bind (tableOf id events).state? = some .unacknowledged) ∧
    ((reached id events).channel.isOpen = true →
      (∀ c ∈ (reached id events).calls, c.request.delivery? = none) →
      (reached id events).channel.unsettledCount =
        (reached id events).channel.deliveries.countP fun x =>
          x.mode = .manual ∧ x.state = .unacknowledged) ∧
    ∀ d n state call s multiple requeue, (reached id events).channel.Manual d n →
      (tableOf id events).state? n = some state → state ≠ .unacknowledged →
      (reached id events).step (.issue call (.settle d s multiple requeue)) =
        (reached id events, [.finish call (.misused (.settled n state))]) := by
  have hsound : (reached id events).Sound := hnumbered.sound htagged
  have htable := sound_tableOf id events
  have htabulated := (orderly_and_tabulated hnumbered htagged hserial hdescribed).2
  refine ⟨htabulated, ?_, ?_, ?_⟩
  · exact htabulated.unsettledCount_eq hsound htable
  · exact htabulated.unsettledCount_eq_of_quiet hsound htable
      fun _ _ hx hmode => htagged.exists_manual hx hmode
  · intro d n state call s multiple requeue hd hstate hne
    have hfree : ¬(reached id events).Held d := by
      intro hheld
      rw [htabulated.held d n hd hheld] at hstate
      exact hne (Option.some.inj hstate).symm
    rw [htabulated.state d n hd hfree] at hstate
    exact hd.step_settle_of_ne hstate hne call s multiple requeue

/-- Three messages arrive. The first is rejected, which the transport refuses; then the second is
acknowledged together with the first. -/
def oneAfterAnother : List Event :=
  [.arrived 0 .manual (messageOf 1), .arrived 0 .manual (messageOf 2),
    .arrived 0 .manual (messageOf 3),
    .issue 0 (.settle 0 .reject (.bool false) .undefined),
    .answered 0 (.threw (.error "Error" "Channel busy" [])), .heard 0,
    .issue 1 (.settle 1 .acknowledge (.bool true) .undefined),
    .answered 1 (.replied .undefined), .heard 1]

/-- In that run settlements do not overlap. -/
theorem serial_oneAfterAnother : Serial "c" oneAfterAnother := by
  rintro u e v he call r rfl hsettle c hc
  have hu : u = oneAfterAnother.take 3 ∨ u = oneAfterAnother.take 6 := by
    simp [oneAfterAnother, List.cons_eq_append_iff] at he
    obtain ⟨w, rfl, ⟨rfl, _⟩ | ⟨rfl, _⟩⟩ := he
    · exact .inl rfl
    · exact .inr rfl
  rcases hu with rfl | rfl
  · exact nomatch hc
  · exact nomatch hc

/-- In that run, the third delivery is left to settle, and the table has it as outstanding. -/
theorem tabulated_reached_oneAfterAnother :
    (reached "c" oneAfterAnother).Tabulated (tableOf "c" oneAfterAnother) ∧
      (tableOf "c" oneAfterAnother).outstanding = [3] ∧
      (reached "c" oneAfterAnother).channel.unsettledCount = 1 := by
  have hdescribed : Described oneAfterAnother := by
    rintro e he call thrown rfl ⟨_, hne⟩
    simp [oneAfterAnother] at he
    exact hne _ _ _ he.2
  obtain ⟨htabulated, _, hcount, _⟩ :=
    @tabulated_reached "c" oneAfterAnother (by decide) (by decide) serial_oneAfterAnother hdescribed
  exact ⟨htabulated, rfl, hcount rfl fun c hc => nomatch hc⟩

end Amqp.Channel
