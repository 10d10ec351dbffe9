import Amqp.Proofs.Gathered
import Amqp.Proofs.Hub.Lines

/-!
# Channels and tallies of the same numbers

A channel of a hub is paired with the tally of the channel of the same number at the broker, unless
the connection dropped while it was being opened: what the broker told then nobody heard. What the
broker tells is heard by the channels one effect after the other; `Ties.hear` follows the effects as
`Told` lists them.
-/

namespace Amqp.Hub

open Channel (Machine)
open Broker (Tally Told)

/-- The channels that miss their ends with an event: if the connection drops, those of which only
the broker's ends are there. -/
def missedBy (h : Hub) : Event → List Nat
  | .disconnect _ => List.range' h.lines.length (h.broker.channels.length - h.lines.length)
  | _ => []

/-- The channels that miss their ends in a run, because the connection drops while they are being
opened. -/
def missedEnds (events : List Event) : List Nat := gathered step missedBy {} events

/-- An attempt to open a channel that the broker has made its end for. -/
def opens : Channel.Outcome → Bool
  | .replied _ => true
  | .threw _ => false

/-- A channel is severed from its tally if it missed its end, and else paired with it. -/
inductive Tied (missed : Prop) (l : Line) (t : Tally) : Prop where
  | paired (h : ¬missed) (hpaired : Paired l t)
  | severed (h : missed) (hsevered : Severed l t)

/-- Every channel is tied to the tally under its number. -/
def Ties (missed : List Nat) (ls : List Line) (ts : List Tally) : Prop :=
  ∀ ch l t, ls[ch]? = some l → ts[ch]? = some t → Tied (ch ∈ missed) l t

/-- A consumer that a call asked for in that mode, on a channel that did not miss its end. -/
def Attends (h : Hub) (missed : List Nat) (ch number : Nat) (mode : AckMode) : Prop :=
  ch < h.lines.length ∧ ch ∉ missed ∧ h.mode? number = some mode

variable {h : Hub} {ch : Nat} {l : Line} {missed more : List Nat} {ls : List Line}
  {ts ts' : List Tally} {known : Nat → Nat → AckMode → Prop}

/-- What keeps a channel paired and what keeps it severed keeps it tied. -/
theorem Tied.imp {missed : Prop} {l l' : Line} {t t' : Tally} (h : Tied missed l t)
    (hpaired : Paired l t → Paired l' t') (hsevered : Severed l t → Severed l' t') :
    Tied missed l' t' := by
  cases h with
  | paired hm h => exact .paired hm (hpaired h)
  | severed hm h => exact .severed hm (hsevered h)

/-- A channel that is open at the broker is paired with its tally. -/
theorem Tied.of_open {missed : Prop} {t : Tally} (h : Tied missed l t) (hopen : t.closed = false) :
    ¬missed ∧ Paired l t := by
  cases h with
  | paired hm h => exact ⟨hm, h⟩
  | severed _ h =>
    rw [h.ended] at hopen
    cases hopen

theorem Tied.exists_sound {missed : Prop} {t : Tally} (h : Tied missed l t) :
    ∃ next, l.Sound next := by
  cases h with
  | paired _ h => exact ⟨_, h.sound⟩
  | severed _ h => exact ⟨_, h.sound⟩

namespace Ties

/-- Channels stay tied where one of them changes on both sides. -/
theorem modify (h : Ties missed ls ts) {f : Line → Line} {g : Tally → Tally}
    (hone : ∀ l t, ls[ch]? = some l → ts[ch]? = some t → Tied (ch ∈ missed) l t →
      Tied (ch ∈ missed) (f l) (g t)) : Ties missed (ls.modify ch f) (ts.modify ch g) := by
  intro i l' t' hl' ht'
  rw [List.getElem?_modify] at hl' ht'
  obtain ⟨l, hl, rfl⟩ := Option.map_eq_some_iff.mp hl'
  obtain ⟨t, ht, rfl⟩ := Option.map_eq_some_iff.mp ht'
  by_cases hi : ch = i
  · subst hi
    rw [if_pos rfl, if_pos rfl]
    exact hone l t hl ht (h ch l t hl ht)
  · rw [if_neg hi, if_neg hi]
    exact h i l t hl ht

/-- Channels stay tied where one of them changes that the broker does not hear of. -/
theorem modify_left (h : Ties missed ls ts) {f : Line → Line}
    (hone : ∀ l t, ls[ch]? = some l → ts[ch]? = some t → Tied (ch ∈ missed) l t →
      Tied (ch ∈ missed) (f l) t) : Ties missed (ls.modify ch f) ts := by
  have hboth := h.modify (g := id) hone
  rwa [List.modify_id] at hboth

/-- Channels stay tied when those that are not there yet miss their ends. -/
theorem extend (h : Ties missed ls ts) (hmore : ∀ ch ∈ more, ls.length ≤ ch) :
    Ties (missed ++ more) ls ts := by
  intro ch l t hl ht
  have hlt : ch < ls.length := (List.getElem?_eq_some_iff.mp hl).1
  have hsame : ch ∈ missed ++ more ↔ ch ∈ missed := by
    rw [List.mem_append, or_iff_left]
    exact fun hmem => Nat.not_le_of_lt hlt (hmore ch hmem)
  rw [hsame]
  exact h ch l t hl ht

/-- Channels stay tied when the broker makes more ends. -/
theorem append_right (h : Ties missed ls ts) (hlength : ls.length ≤ ts.length) (us : List Tally) :
    Ties missed ls (ts ++ us) := by
  intro ch l t hl ht
  have hlt : ch < ls.length := (List.getElem?_eq_some_iff.mp hl).1
  rw [List.getElem?_append_left (Nat.lt_of_lt_of_le hlt hlength)] at ht
  exact h ch l t hl ht

/-- Channels stay tied when there is one more that is. -/
theorem concat (h : Ties missed ls ts)
    (hnew : ∀ t, ts[ls.length]? = some t → Tied (ls.length ∈ missed) l t) :
    Ties missed (ls ++ [l]) ts := by
  intro ch l' t hl' ht
  rcases Nat.lt_or_ge ch ls.length with hlt | hge
  · rw [List.getElem?_append_left hlt] at hl'
    exact h ch l' t hl' ht
  · obtain ⟨hlt, hget⟩ := List.getElem?_eq_some_iff.mp hl'
    obtain rfl : ch = ls.length := by
      rw [List.length_append, List.length_singleton] at hlt
      omega
    rw [List.getElem_concat_length rfl] at hget
    subst hget
    exact hnew t ht

end Ties

/-! ## What channels hear -/

/-- What a channel hears changes that channel at most. -/
theorem exists_hear_eq (h : Hub) (f : Broker.Effect) : ∃ ch g, h.hear f = h.modifyLine ch g := by
  have hsame : h = h.modifyLine 0 id := by
    rw [modifyLine, List.modify_id]
  cases f with
  | deliver ch number m =>
    simp only [hear]
    split
    · exact ⟨ch, _, rfl⟩
    · exact ⟨0, id, hsame⟩
  | cancelled ch number tag =>
    simp only [hear]
    split
    · exact ⟨ch, _, rfl⟩
    · exact ⟨0, id, hsame⟩
  | lost ch error => exact ⟨ch, _, rfl⟩

/-- Channels that hear something change neither the broker nor the consumers they asked for, and no
channel comes or goes. -/
structure Hears (h h' : Hub) : Prop where
  broker : h'.broker = h.broker
  subscriptions : h'.subscriptions = h.subscriptions
  openings : h'.openings = h.openings
  length : h'.lines.length = h.lines.length

theorem hears_foldl (h : Hub) (effects : List Broker.Effect) :
    Hears h (effects.foldl hear h) := by
  induction effects generalizing h with
  | nil => exact ⟨rfl, rfl, rfl, rfl⟩
  | cons f effects ih =>
    have hrest := ih (h.hear f)
    obtain ⟨ch, g, hhear⟩ := h.exists_hear_eq f
    rw [List.foldl_cons]
    rw [hhear] at hrest ⊢
    exact ⟨hrest.broker, hrest.subscriptions, hrest.openings,
      hrest.length.trans (List.length_modify ..)⟩

theorem mode?_congr {h' : Hub} (hsame : h'.subscriptions = h.subscriptions) :
    h'.mode? = h.mode? := by
  funext number
  rw [mode?, mode?, subscription?, subscription?, hsame]

/-- The channels keep up with what the broker tells. -/
theorem Ties.hear {effects : List Broker.Effect} (hties : Ties missed h.lines ts)
    (htold : Told known ts effects ts')
    (hknown : ∀ ch number mode, known ch number mode → ch ∉ missed ∧ h.mode? number = some mode) :
    Ties missed (effects.foldl Hub.hear h).lines ts' := by
  induction htold generalizing h with
  | nothing => exact hties
  | @handed ts ts' t ch number mode m effects ht hconsumer htag _ ih =>
    obtain ⟨hheard, hnumber⟩ := hknown ch number mode hconsumer
    have hhear : h.hear (.deliver ch number m) =
        h.modifyLine ch (·.tell (.arrived number mode m)) := by
      simp only [Hub.hear, hnumber]
    rw [List.foldl_cons, hhear]
    refine ih ?_ hknown
    refine hties.modify fun l t' _ ht' hone => ?_
    obtain rfl := Option.some.inj (ht.symm.trans ht')
    cases hone with
    | paired hm hpaired => exact .paired hm (hpaired.delivered htag number mode)
    | severed hm _ => exact absurd hm hheard
  | @ended ts ts' t ch error effects ht hopen _ ih =>
    rw [List.foldl_cons]
    refine ih ?_ hknown
    refine hties.modify fun l t' _ ht' hone => ?_
    obtain rfl := Option.some.inj (ht.symm.trans ht')
    obtain ⟨hm, hpaired⟩ := hone.of_open hopen
    exact .paired hm (hpaired.lost hopen error)

/-- What only consumers hear changes no channel. -/
theorem foldl_hear_of_cancellations (h : Hub) {effects : List Broker.Effect}
    (hcancelled : ∀ f ∈ effects, f.isCancellation = true) : effects.foldl hear h = h := by
  induction effects generalizing h with
  | nil => rfl
  | cons f effects ih =>
    obtain ⟨hf, hrest⟩ := List.forall_mem_cons.mp hcancelled
    rw [List.foldl_cons, ih _ hrest]
    cases f with
    | deliver => cases hf
    | lost => cases hf
    | cancelled ch number tag =>
      have htell (s : Subscription) : (·.tell (.cancelled tag s.queue)) = (id : Line → Line) := by
        funext l
        simp only [Line.tell, Machine.step]
        cases Channel.cancelledEntry tag s.queue <;> rfl
      simp only [hear]
      split
      · rw [htell, modifyLine, List.modify_id]
      · rfl

end Amqp.Hub
