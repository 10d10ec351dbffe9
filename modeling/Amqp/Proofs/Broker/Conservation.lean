import Amqp.Proofs.Broker.Copies
import Amqp.Proofs.Broker.Runs
import Mathlib.Data.List.Basic
import Mathlib.Data.List.Nodup

/-!
# No copy is lost or duplicated

Over a whole run of a broker every copy that a publish put on a queue is in one place: ready on a
queue, waiting on an open channel, or gone for one reason. It stays what was published, and whether
it is marked as redelivered tells exactly whether it has been handed out.
-/

namespace Amqp.Broker

/-! ## Places -/

/-- Where a copy is. -/
inductive Place where
  /-- At a position of the queue with that number. -/
  | ready (queue position : Nat)
  /-- On a channel under a delivery tag. -/
  | unacked (channel tag : Nat)
  /-- Gone. -/
  | retired (reason : Reason)
  deriving DecidableEq, Repr

/-- A copy in its place. -/
structure Holding where
  place : Place
  copy : Copy
  deriving Repr

/-- The copies on a queue. -/
def Queue.holdings (q : Queue) : List Holding :=
  q.messages.zipIdx.map fun e => ⟨.ready q.id e.2, e.1⟩

/-- The copies that wait on a channel; one that has ended does not count. -/
def Channel.holdings (c : Channel) (ch : Nat) : List Holding :=
  if c.closed then [] else c.unacked.map fun e => ⟨.unacked ch e.1, e.2.copy⟩

/-- The copies that are ready, in their places. -/
def readyHoldings (b : Broker) : List Holding := b.queues.flatMap Queue.holdings

/-- The copies that wait on a channel, in their places. -/
def waitingHoldings (b : Broker) : List Holding :=
  b.channels.zipIdx.flatMap fun e => e.1.holdings e.2

/-- All copies in their places, according to a broker and its books. -/
def holdings (b : Broker) (s : Books) : List Holding :=
  b.readyHoldings ++ b.waitingHoldings ++ s.retired.map fun r => ⟨.retired r.reason, r.copy⟩

variable {b : Broker} {s : Books} {x : Holding}

theorem copies_readyHoldings (b : Broker) : b.readyHoldings.map (·.copy) = b.ready := by
  have hcopies (q : Queue) : q.holdings.map (·.copy) = q.messages := by
    rw [Queue.holdings, List.map_map]
    exact List.zipIdx_map_fst 0 q.messages
  rw [readyHoldings, List.map_flatMap, ready]
  simp only [hcopies]

/-- What waits on open channels is what waits, for nothing waits on one that has ended. -/
theorem copies_waitingHoldings (hb : b.Attended) :
    b.waitingHoldings.map (·.copy.marked) = b.waiting := by
  have hcopies (e : Channel × Nat) (he : e ∈ b.channels.zipIdx) :
      (e.1.holdings e.2).map (·.copy.marked) = e.1.waiting := by
    rw [Channel.holdings]
    split
    · rename_i hclosed
      rw [Channel.waiting, hb.emptied e.1 (List.fst_mem_of_mem_zipIdx he) hclosed]
      rfl
    · rw [List.map_map]
      rfl
  have hchannels : b.channels.zipIdx.map Prod.fst = b.channels := List.zipIdx_map_fst 0 b.channels
  rw [waitingHoldings, List.map_flatMap, List.flatMap_congr hcopies, waiting]
  conv_rhs => rw [← hchannels, List.flatMap_map]

/-- The places hold what the broker and its books have. -/
theorem serials_holdings (hb : b.Attended) (s : Books) :
    (b.holdings s).map (·.copy.serial) = (b.allCopies [] s).map (·.serial) := by
  simp only [holdings, allCopies, ← copies_readyHoldings b, ← copies_waitingHoldings hb,
    List.map_append, List.map_map, List.map_nil, List.append_nil]
  rfl

/-- What is in a place is a copy that the broker or its books have. -/
theorem exists_mem_allCopies (hb : b.Attended) (hx : x ∈ b.holdings s) :
    ∃ c ∈ b.allCopies [] s, c.unmarked = x.copy.unmarked := by
  simp only [holdings, List.mem_append] at hx
  simp only [allCopies, List.mem_append]
  rcases hx with (hx | hx) | hx
  · refine ⟨x.copy, .inl (.inl (.inl ?_)), rfl⟩
    rw [← copies_readyHoldings]
    exact List.mem_map_of_mem hx
  · refine ⟨x.copy.marked, .inl (.inl (.inr ?_)), rfl⟩
    rw [← copies_waitingHoldings hb]
    exact List.mem_map_of_mem hx
  · obtain ⟨r, hr, rfl⟩ := List.mem_map.mp hx
    exact ⟨r.copy, .inr (List.mem_map_of_mem hr), rfl⟩

/-- A copy in a place on a queue is ready. -/
theorem mem_ready_of_place (hx : x ∈ b.holdings s) {id i : Nat} (hplace : x.place = .ready id i) :
    x.copy ∈ b.ready := by
  simp only [holdings, List.mem_append] at hx
  rcases hx with (hx | hx) | hx
  · rw [← copies_readyHoldings]
    exact List.mem_map_of_mem hx
  · obtain ⟨e, _, hx⟩ := List.mem_flatMap.mp hx
    rw [Channel.holdings] at hx
    split at hx
    · exact nomatch hx
    · obtain ⟨e, _, rfl⟩ := List.mem_map.mp hx
      exact nomatch hplace
  · obtain ⟨r, _, rfl⟩ := List.mem_map.mp hx
    exact nomatch hplace

/-! ## Conservation -/

/-- No copy of a run is lost, duplicated, or changed. -/
structure Conserved (events : List Event) : Prop where
  /-- Queues have numbers of their own, and so have the copies that wait on one channel. -/
  keyed : (reached events).Keyed
  /-- The copies that publishes put on queues are numbered in order. -/
  numbered : (books events).made.map (·.serial) = List.range (reached events).copied
  /-- Each of them comes from one publish, and is what that was given. -/
  published : ∀ c ∈ (books events).made, ∃ u e v ch number exchangeName key properties body,
    events = u ++ e :: v ∧
    e = .request ch number (.basicPublish exchangeName key properties body) ∧
    (reached u).copied ≤ c.serial ∧ c.serial < ((reached u).step e).broker.copied ∧
    c = ⟨c.serial, exchangeName, key, properties, bytesOf body, false⟩
  /-- Each of them is in exactly one place, and there it is what was published. -/
  placed : ∀ c ∈ (books events).made, ∃ x,
    ((reached events).holdings (books events)).filter (·.copy.serial == c.serial) = [x] ∧
    x.copy.unmarked = c
  /-- There are no others. -/
  made : ∀ x ∈ (reached events).holdings (books events), x.copy.unmarked ∈ (books events).made
  /-- While a copy is ready, it is marked exactly if it has been handed out. -/
  ready : ∀ x ∈ (reached events).holdings (books events), ∀ id i, x.place = .ready id i →
    (x.copy.redelivered = true ↔ x.copy.serial ∈ (books events).handed.map (·.copy.serial))
  /-- What is delivered is what the books say. -/
  delivered : (emitted events).filter Effect.isDelivery =
    (books events).handed.map Handover.effect
  /-- It is what was published. -/
  handed : ∀ x ∈ (books events).handed, x.copy.unmarked ∈ (books events).made
  /-- It is delivered as marked exactly if it has been handed out before. -/
  flagged : Flagged (books events).handed

/-- Copies of one number are one copy. -/
theorem Moves.eq_of_serial {hand : List Unacked} (h : Moves {} [] b hand s) {c c' : Copy}
    (hc : c ∈ s.made) (hc' : c' ∈ s.made) (hserial : c.serial = c'.serial) : c = c' := by
  have hdistinct : (s.made.map (·.serial)).Nodup := h.numbered.1 ▸ List.nodup_range
  exact List.inj_on_of_nodup_map hdistinct hc hc' hserial

/-- No message is lost or duplicated. In every run in which no consumer is started under a tag that
is still live on its channel, every copy that a publish put on a queue is in exactly one place: at
one position of one queue, under one tag of one channel that has not ended, or gone for one reason.
It is what was published, and while it is ready, and in every delivery of it, it is marked as
redelivered exactly if it has been handed out before. Tags of other channels may be used again. -/
theorem conserved {events : List Event} (hfresh : IsFresh events) : Conserved events := by
  have hmoves : Moves {} [] (reached events) [] (books events) :=
    moves_run keyed_empty attended_empty hfresh
  have hattended : (reached events).Attended := attended_empty.moves hmoves
  have hmade : ∀ x ∈ (reached events).holdings (books events),
      x.copy.unmarked ∈ (books events).made := by
    intro x hx
    obtain ⟨c, hc, hsame⟩ := exists_mem_allCopies hattended hx
    exact hsame ▸ hmoves.unmarked_mem hc
  refine
    { keyed := keyed_empty.moves hmoves
      numbered := hmoves.numbered.1
      published := fun c hc => exists_publish hc
      placed := ?_
      made := hmade
      ready := ?_
      delivered := deliveries_emittedFrom {} events
      handed := hmoves.handed_unmarked
      flagged := hmoves.flagged }
  · intro c hc
    have hserial : c.serial < (reached events).copied := by
      have hmem : c.serial ∈ (books events).made.map (·.serial) := List.mem_map_of_mem hc
      rwa [hmoves.numbered.1, List.mem_range] at hmem
    have hcount : (((reached events).holdings (books events)).filter
        (·.copy.serial == c.serial)).length = 1 := by
      have hplaces := congrArg (List.count c.serial) (serials_holdings hattended (books events))
      simp only [List.count, List.countP_map] at hplaces
      rw [← List.countP_eq_length_filter, ← hmoves.countP_serial hserial]
      exact hplaces
    obtain ⟨x, hx⟩ := List.length_eq_one_iff.mp hcount
    have hmem : x ∈ ((reached events).holdings (books events)).filter
        (·.copy.serial == c.serial) := hx ▸ List.mem_singleton_self x
    obtain ⟨hheld, hsame⟩ := List.mem_filter.mp hmem
    refine ⟨x, hx, hmoves.eq_of_serial (hmade x hheld) hc ?_⟩
    simpa using hsame
  · intro x hx id i hplace
    refine hmoves.redelivered_iff hmoves.flagged ?_
    simp [allCopies, mem_ready_of_place hx hplace]

/-- Three messages are published and handed to a consumer. The second is acknowledged, and the first
is put back. -/
def threeMessages : List Event :=
  [.openChannel,
    .request 0 0 (.queueDeclare (some (.table
      [("name", .text "jobs"), ("autoDelete", .bool false)]))),
    .request 0 1 (.basicPublish (.text "") (.text "jobs") (.table []) (.bytes [1])),
    .request 0 2 (.basicPublish (.text "") (.text "jobs") (.table []) (.bytes [2])),
    .request 0 3 (.basicPublish (.text "") (.text "jobs") (.table []) (.bytes [3])),
    .request 0 4 (.basicConsume (.text "jobs") (.table [("consumerTag", .text "ctag")])),
    .serve,
    .request 0 5 (.basicAck (.assigned 2) (.bool false)),
    .request 0 6 (.basicNack (.assigned 1) (.bool false) (.bool true))]

/-- In that run nothing is lost: the first message is ready again and marked, the third one waits,
and the second one is gone. -/
theorem conserved_threeMessages :
    IsFresh threeMessages ∧ Conserved threeMessages ∧
      ((reached threeMessages).holdings (books threeMessages)).map
        (fun x => (x.copy.serial, x.place, x.copy.redelivered)) =
          [(0, .ready 0 0, true), (2, .unacked 0 3, false), (1, .retired .acknowledged, true)] := by
  have hnone : (reached (threeMessages.take 5)).channels.all (·.consumers.isEmpty) = true := rfl
  have hnew : (Event.request 0 4 (.basicConsume (.text "jobs")
      (.table [("consumerTag", .text "ctag")]))).IsNew (reached (threeMessages.take 5)) := by
    intro _ c hc r hr
    have hempty := List.all_eq_true.mp hnone c (List.mem_of_getElem? hc)
    rw [List.isEmpty_iff.mp hempty] at hr
    exact nomatch hr
  have hfresh : IsFresh threeMessages :=
    ⟨trivial, trivial, trivial, trivial, trivial, hnew, trivial, trivial, trivial, trivial⟩
  exact ⟨hfresh, conserved hfresh, rfl⟩

end Amqp.Broker
