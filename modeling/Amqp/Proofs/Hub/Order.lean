import Amqp.Proofs.Broker.FirstInFirstOut
import Amqp.Proofs.Channel.Turns
import Amqp.Proofs.Hub.Agreement

/-!
# Handlers start in the order of the tags

The broker hands messages to a channel under ascending tags, the channel hears of them in that
order, and its handlers start in the order in which it heard. Together with queues that are lines,
this is the way of a message from its publish to its handler.
-/

namespace Amqp.Hub

open Channel (Machine)

/-- The tags of the deliveries of a channel whose handlers start with an event. Only a turn starts
a handler. -/
def startedOn (ch : Nat) (h : Hub) : Event → List Tag
  | .turn ch' => if ch' = ch then ((h.lines[ch]?).map (·.machine.startedBy .turn)).getD [] else []
  | _ => []

/-- The tags of the deliveries of a channel whose handlers have started in a run, in order. -/
def startedTags (ch : Nat) (events : List Event) : List Tag :=
  gathered step (startedOn ch) {} events

variable {h : Hub} {e : Event} {ch ch' : Nat} {m : Machine} {ts ts' hs hs' : List Tag}

/-! ## Channels -/

/-- The handlers of a channel are in turn, and it has heard of some of the tags `hs`, in order. -/
structure Turned (m : Machine) (ts hs : List Tag) : Prop where
  inTurn : m.InTurn ts
  heard : m.channel.tags.Sublist hs

theorem Turned.mono (h : Turned m ts hs) (hmore : hs.Sublist hs') : Turned m ts hs' :=
  ⟨h.inTurn, h.heard.trans hmore⟩

/-- What happens to a channel starts a handler if it is a turn, and else it may tell of a tag. -/
theorem Turned.step (h : Turned m ts hs) (e : Channel.Event) :
    Turned (m.step e).1 (ts ++ m.startedBy e) (hs ++ (e.label?.map (·.1.tag)).toList) := by
  refine ⟨h.inTurn.step e, ?_⟩
  rcases m.tags_step e with hsame | ⟨l, hl, hmore⟩
  · rw [hsame]
    exact h.heard.trans (List.sublist_append_left _ _)
  · rw [hmore, hl]
    exact h.heard.append (List.Sublist.refl _)

/-- What is neither a turn nor a message starts nothing and tells of no tag. -/
theorem Turned.step_of_quiet (h : Turned m ts hs) {e : Channel.Event} (hturn : e ≠ .turn)
    (hlabel : e.label? = none) : Turned (m.step e).1 ts hs := by
  have hstep := h.step e
  rwa [m.startedBy_of_ne hturn, hlabel, List.append_nil, Option.map_none, Option.toList_none,
    List.append_nil] at hstep

theorem Turned.turn (h : Turned m ts hs) :
    Turned (m.step .turn).1 (ts ++ m.startedBy .turn) hs := by
  have hstep := h.step .turn
  have hlabel : Channel.Event.turn.label? = none := rfl
  rwa [hlabel, Option.map_none, Option.toList_none, List.append_nil] at hstep

/-! ## Steps -/

/-- The channel of that number, if it is there, has started the handlers for the tags `ts`. -/
structure TurnedOn (ch : Nat) (h : Hub) (ts hs : List Tag) : Prop where
  line : ∀ l, h.lines[ch]? = some l → Turned l.machine ts hs
  absent : h.lines[ch]? = none → ts = []

namespace TurnedOn

/-- The channel itself changes. -/
theorem modifyLine_self (hon : TurnedOn ch h ts hs) {f : Line → Line}
    (hf : ∀ l, h.lines[ch]? = some l → Turned l.machine ts hs → Turned (f l).machine ts' hs')
    (habsent : h.lines[ch]? = none → ts' = ts) : TurnedOn ch (h.modifyLine ch f) ts' hs' := by
  have hlines : (h.modifyLine ch f).lines[ch]? = (h.lines[ch]?).map f := by
    simp [modifyLine]
  refine ⟨fun l' hl' => ?_, fun hnone => ?_⟩
  · rw [hlines] at hl'
    obtain ⟨l, hl, rfl⟩ := Option.map_eq_some_iff.mp hl'
    exact hf l hl (hon.line l hl)
  · rw [hlines, Option.map_eq_none_iff] at hnone
    rw [habsent hnone, hon.absent hnone]

/-- Another channel changes. -/
theorem modifyLine_of_ne (hon : TurnedOn ch h ts hs) (hne : ch' ≠ ch) (f : Line → Line) :
    TurnedOn ch (h.modifyLine ch' f) ts hs := by
  have hlines : (h.modifyLine ch' f).lines[ch]? = h.lines[ch]? := by
    simp [modifyLine, hne]
  exact ⟨hlines ▸ hon.line, hlines ▸ hon.absent⟩

/-- Some channel changes in a way that starts no handler. -/
theorem modifyLine (hon : TurnedOn ch h ts hs) (ch' : Nat) {f : Line → Line}
    (hf : ∀ l, Turned l.machine ts hs → Turned (f l).machine ts hs) :
    TurnedOn ch (h.modifyLine ch' f) ts hs := by
  by_cases hch : ch' = ch
  · subst hch
    exact hon.modifyLine_self (fun l _ => hf l) fun _ => rfl
  · exact hon.modifyLine_of_ne hch f

/-- Callers, handlers and answers start no handler, and a turn starts one. -/
theorem started (hon : TurnedOn ch h ts hs) (e : Event) :
    TurnedOn ch (h.started e) (ts ++ startedOn ch h e) hs := by
  have hsubscribed : TurnedOn ch { h with
      subscriptions := h.subscriptions ++ e.subscription?.toList } ts hs := ⟨hon.line, hon.absent⟩
  have hquiet (ch' : Nat) (e' : Channel.Event) (hturn : e' ≠ .turn) (hlabel : e'.label? = none) :=
    hsubscribed.modifyLine ch' (f := (·.tell e')) fun l hl => hl.step_of_quiet hturn hlabel
  cases e with
  | issue ch' call r =>
    simp only [startedOn, List.append_nil]
    exact hquiet ch' (.issue call r) (by rintro ⟨⟩) rfl
  | heard ch' call =>
    simp only [startedOn, List.append_nil]
    exact hquiet ch' (.heard call) (by rintro ⟨⟩) rfl
  | handlerFailed ch' d thrown =>
    simp only [startedOn, List.append_nil]
    exact hquiet ch' (.handlerFailed d thrown) (by rintro ⟨⟩) rfl
  | answered ch' call =>
    simp only [startedOn, List.append_nil]
    refine hsubscribed.modifyLine ch' fun l hl => ?_
    rw [Line.answer]
    split
    · exact hl.step_of_quiet (by rintro ⟨⟩) rfl
    · exact hl
  | turn ch' =>
    by_cases hch : ch' = ch
    · subst hch
      rw [startedOn, if_pos rfl]
      refine hsubscribed.modifyLine_self (fun l hl hturned => ?_) fun hnone => ?_
      · have hl : h.lines[ch']? = some l := hl
        rw [hl]
        exact hturned.turn
      · have hnone : h.lines[ch']? = none := hnone
        rw [hnone, Option.map_none, Option.getD_none, List.append_nil]
    · rw [startedOn, if_neg hch, List.append_nil]
      exact hsubscribed.modifyLine_of_ne hch _
  | _ =>
    simp only [startedOn, List.append_nil]
    exact hsubscribed

/-- A channel may hear of a message that it is handed. -/
theorem hear (hon : TurnedOn ch h ts hs) (f : Broker.Effect) :
    TurnedOn ch (h.hear f) ts (hs ++ handed ch [f]) := by
  have hmore : TurnedOn ch h ts (hs ++ handed ch [f]) :=
    ⟨fun l hl => (hon.line l hl).mono (List.sublist_append_left _ _), hon.absent⟩
  cases f with
  | deliver ch' number m =>
    simp only [Hub.hear]
    split
    · rename_i mode _
      by_cases hch : ch' = ch
      · subst hch
        have hhanded : handed ch' [.deliver ch' number m] = [m.tag] := by
          simp [handed, handedTag?]
        rw [hhanded]
        refine hon.modifyLine_self (fun l _ hturned => ?_) fun _ => rfl
        have hstep := hturned.step (.arrived number mode m)
        rwa [l.machine.startedBy_of_ne (by rintro ⟨⟩), List.append_nil] at hstep
      · exact hmore.modifyLine_of_ne hch _
    · exact hmore
  | cancelled ch' number tag =>
    simp only [Hub.hear]
    split
    · exact hmore.modifyLine ch' fun l hl => hl.step_of_quiet (by rintro ⟨⟩) rfl
    · exact hmore
  | lost ch' error =>
    exact hmore.modifyLine ch' fun l hl => hl.step_of_quiet (by rintro ⟨⟩) rfl

theorem foldl_hear (hon : TurnedOn ch h ts hs) (effects : List Broker.Effect) :
    TurnedOn ch (effects.foldl Hub.hear h) ts (hs ++ handed ch effects) := by
  induction effects generalizing h hs with
  | nil => exact (List.append_nil hs).symm ▸ hon
  | cons f effects ih =>
    have hhanded : handed ch (f :: effects) = handed ch [f] ++ handed ch effects :=
      List.filterMap_append (l := [f])
    rw [List.foldl_cons, hhanded, ← List.append_assoc]
    exact ih (hon.hear f)

/-- A channel that has just been opened has started no handler. -/
theorem enroll (hon : TurnedOn ch h ts hs) : TurnedOn ch h.enroll ts hs := by
  have henrolls := h.enrolls_enroll
  generalize h.enroll = h' at henrolls ⊢
  cases henrolls with
  | nobody | refused => exact ⟨hon.line, hon.absent⟩
  | opened =>
    generalize h.broker.nextIdentity = id
    rcases Nat.lt_trichotomy ch h.lines.length with hlt | rfl | hgt
    · have hlines : (h.lines ++ [({ machine := Channel.opened id } : Line)])[ch]? = h.lines[ch]? :=
        List.getElem?_append_left hlt
      exact ⟨hlines ▸ hon.line, hlines ▸ hon.absent⟩
    · -- No channel had this number before, so nothing counts as started on it.
      obtain rfl := hon.absent (List.getElem?_eq_none (Nat.le_refl _))
      have hlines : (h.lines ++ [{ machine := Channel.opened id }])[h.lines.length]? =
          some { machine := Channel.opened id } := List.getElem?_concat_length
      refine ⟨fun l hl => ?_, fun _ => rfl⟩
      obtain rfl := Option.some.inj (hlines.symm.trans hl)
      exact ⟨Machine.inTurn_opened id, List.nil_sublist _⟩
    · have hlength : (h.lines ++ [({ machine := Channel.opened id } : Line)]).length ≤ ch := by
        rw [List.length_append]
        exact hgt
      have hlines : (h.lines ++ [({ machine := Channel.opened id } : Line)])[ch]? = none :=
        List.getElem?_eq_none hlength
      refine ⟨fun l hl => ?_, fun _ => hon.absent (List.getElem?_eq_none (Nat.le_of_lt hgt))⟩
      cases hlines.symm.trans hl

theorem concluded (hon : TurnedOn ch h ts hs) (e : Event) (asked : Bool) (o : Channel.Outcome) :
    TurnedOn ch (h.concluded e asked o) ts hs := by
  cases e with
  | issue ch' call r =>
    simp only [Hub.concluded]
    split
    · exact hon.modifyLine ch' fun _ hl => hl
    · exact hon
  | opening => exact ⟨hon.line, hon.absent⟩
  | opened => exact hon.enroll
  | _ => exact hon

/-- The broker may change without the channels. -/
theorem step (hon : TurnedOn ch h ts hs) (e : Event) :
    TurnedOn ch (h.step e) (ts ++ startedOn ch h e) (hs ++ handed ch (h.response e).effects) := by
  have hstarted : TurnedOn ch { h.started e with broker := (h.response e).broker }
      (ts ++ startedOn ch h e) hs := ⟨(hon.started e).line, (hon.started e).absent⟩
  exact (hstarted.foldl_hear _).concluded e _ _

end TurnedOn

/-! ## Runs -/

/-- Handlers are in turn on every channel, in every run. -/
theorem turnedOn_reached (ch : Nat) (events : List Event) :
    TurnedOn ch (reached events) (startedTags ch events) (handed ch (emitted events)) := by
  induction events using List.reverseRecOn with
  | nil => exact ⟨fun l hl => (by cases hl), fun _ => rfl⟩
  | append_singleton u e ih =>
    have hhanded : handed ch (emitted (u ++ [e])) =
        handed ch (emitted u) ++ handed ch ((reached u).response e).effects := by
      rw [emitted_concat]
      exact List.filterMap_append
    rw [reached_concat, hhanded, startedTags, gathered_concat]
    exact ih.step e

/-- The handlers of a channel start for its first deliveries, in the order of their tags. -/
structure StartsInOrder (ch : Nat) (events : List Event) : Prop where
  ascending : ∃ ns : List Nat, startedTags ch events = ns.map .assigned ∧ ns.Pairwise (· < ·)
  first : ∀ l, (reached events).lines[ch]? = some l →
    startedTags ch events <+: l.machine.channel.tags

theorem startsInOrder_reached (ch : Nat) (events : List Event) : StartsInOrder ch events := by
  have hturned := turnedOn_reached ch events
  refine ⟨?_, fun l hl => (hturned.line l hl).inTurn.first⟩
  cases hl : (reached events).lines[ch]? with
  | none => exact ⟨[], hturned.absent hl, List.Pairwise.nil⟩
  | some l =>
    obtain ⟨n, hhanded⟩ := exists_handed_eq ch events
    have hsublist : (startedTags ch events).Sublist ((List.range' 1 n).map .assigned) := by
      rw [← hhanded]
      exact (hturned.line l hl).inTurn.first.sublist.trans (hturned.line l hl).heard
    obtain ⟨ns, hns, hstarted⟩ := List.sublist_map_iff.mp hsublist
    exact ⟨ns, hstarted, List.Pairwise.sublist hns List.pairwise_lt_range'⟩

/-- First in, first out. In every run of a broker in which nothing is put back, over any queues,
consumers and channels: each queue hands out what was put on it in the order of the publishes, each
copy at most once, and none while an earlier one is still ready, so that what is missing was ready
when the queue was purged or went. In every run of channels over a broker, whatever is asked for and
put back, the handlers of each channel start in the order of the delivery tags. -/
theorem first_in_first_out {events : List Broker.Event} (hkept : Broker.givenBack events = []) :
    Broker.InOrder events ∧ ∀ (ch : Nat) (run : List Event), StartsInOrder ch run :=
  ⟨Broker.inOrder_reached hkept, startsInOrder_reached⟩

/-- Two channels: the first one has a manual and an automatic consumer, whose handlers give a
message back and publish another one. Both go out before the channel hears of the settlement; then
the second channel is closed. -/
def twoChannels : List Event :=
  [.opening, .opened, .opening, .opened,
    .issue 0 0 (.declareQueue (.table [("name", .text "jobs"), ("autoDelete", .bool false)])),
    .answered 0 0,
    .issue 0 1 (.declareQueue (.table [("name", .text "news"), ("autoDelete", .bool false)])),
    .answered 0 1,
    .issue 0 2 (.consume (.text "jobs") (.table [])), .answered 0 2,
    .issue 0 3 (.consume (.text "news") (.table [("autoAck", .bool true)])), .answered 0 3,
    .issue 1 4 (.publish (.text "") (.text "jobs") [1] (.table [])), .answered 1 4,
    .issue 1 5 (.publish (.text "") (.text "news") [2] (.table [])), .answered 1 5,
    .serve, .serve,
    .turn 0, .issue 0 6 (.settle 0 .reject .undefined .undefined), .turn 0,
    .issue 0 7 (.publish (.text "") (.text "jobs") [3] (.table [])),
    .serve, .answered 0 6, .heard 0 6, .answered 0 7,
    .issue 1 8 (.close .undefined), .answered 1 8]

/-- Of four messages the first one is purged. Consumers of two channels share the others, and a
settlement gives one of them up. -/
def sharedQueue : List Broker.Event :=
  [.openChannel, .openChannel,
    .request 0 0 (.queueDeclare (some (.table
      [("name", .text "jobs"), ("autoDelete", .bool false)]))),
    .request 1 1 (.basicPublish (.text "") (.text "jobs") (.table []) (.bytes [1])),
    .request 1 2 (.queuePurge (.text "jobs")),
    .request 1 3 (.basicPublish (.text "") (.text "jobs") (.table []) (.bytes [2])),
    .request 1 4 (.basicPublish (.text "") (.text "jobs") (.table []) (.bytes [3])),
    .request 0 5 (.basicConsume (.text "jobs") (.table [("consumerTag", .text "first")])),
    .request 1 6 (.basicConsume (.text "jobs") (.table [("consumerTag", .text "second")])),
    .serve,
    .request 0 7 (.basicNack (.assigned 1) (.bool false) (.bool false)),
    .request 1 8 (.basicPublish (.text "") (.text "jobs") (.table []) (.bytes [4])),
    .serve]

/-- In that run the queue hands out all but the first message, in order; and where two channels
share a broker, the first two handlers of the first channel are those of its first two tags. -/
theorem first_in_first_out_sharedQueue :
    Broker.givenBack sharedQueue = [] ∧ Broker.InOrder sharedQueue ∧
      (Broker.puts 0 sharedQueue).map (·.serial) = [0, 1, 2, 3] ∧
      (Broker.handsOut 0 sharedQueue).map (·.serial) = [1, 2, 3] ∧
      (Broker.books sharedQueue).handed.map (fun x => (x.consumer.channel, x.tag)) =
        [(0, 1), (1, 1), (0, 2)] ∧
      StartsInOrder 0 twoChannels ∧ startedTags 0 twoChannels = [.assigned 1, .assigned 2] := by
  have hkept : Broker.givenBack sharedQueue = [] := rfl
  obtain ⟨hinOrder, hstarts⟩ := first_in_first_out hkept
  exact ⟨hkept, hinOrder, rfl, rfl, rfl, hstarts 0 twoChannels, rfl⟩

end Amqp.Hub
