import Amqp.Proofs.Broker.Ready
import Amqp.Proofs.Broker.Shifts
import Amqp.Proofs.Channel.Asking
import Mathlib.Data.List.Flatten
import Mathlib.Data.List.Palindrome

/-!
# The order in which messages are put back

What a channel gives back goes to the head of its queues, one copy after the other, so that the last
one comes to stand first. A channel that ends gives back what waits in the order of the tags, and a
settlement gives back the named tag and then the smaller ones in their order: all of the first and
the smaller ones of the second are turned around on their way. `PutsBack` lists the moments at which
that happens, and `requeued_in_order_iff` says exactly when the order of the tags survives it.
-/

namespace Amqp.Broker

/-- The number of the queue that a copy goes back to. -/
def destination? (b : Broker) (u : Unacked) : Option Nat :=
  ((b.queue? u.queue).orElse fun _ => b.queueById? u.origin).map (·.id)

/-- The copies among some entries that go back to the queue with that number, marked. -/
def boundFor (b : Broker) (id : Nat) (es : List (Nat × Unacked)) : List Copy :=
  (es.filter fun x => b.destination? x.2 == some id).map (·.2.copy.marked)

/-- Every queue that is left has its part of the entries at its head, in their order, and then what
was ready before. -/
def Arranged (b : Broker) (es : List (Nat × Unacked)) (b' : Broker) : Prop :=
  ∀ q ∈ b'.queues, q.messages = b'.boundFor q.id es ++ b.readyOn q.id

/-- What waits on a channel, by tag. -/
def unackedOn (b : Broker) (ch : Nat) : List (Nat × Unacked) :=
  ((b.channels[ch]?).map (·.unacked)).getD []

/-- What waits on a channel under smaller tags. -/
def earlierOn (b : Broker) (ch : Nat) (tag : Tag) : List (Nat × Unacked) :=
  (b.unackedOn ch).filter fun x => tag.number?.any (x.1 < ·)

/-- What waits on a channel under the tag. -/
def taggedOn (b : Broker) (ch : Nat) (tag : Tag) : List (Nat × Unacked) :=
  (b.unackedOn ch).filter fun x => tag.number?.any (x.1 == ·)

/-- The broker while its connection drops, once the first channels have ended. -/
def cutOff (b : Broker) (error : Value) (count : Nat) : Broker :=
  (List.range count).foldl (fun b ch => (b.terminate ch (some error)).1) b

/-- Entries of a channel are put back, in a step of the broker or while its connection drops: first
the entries before a settlement's tag, and then the one of the tag. A channel that ends puts all of
its entries back. -/
inductive PutsBack (b : Broker) :
    Broker → List (Nat × Unacked) → List (Nat × Unacked) → Broker → Prop where
  /-- A settlement of a tag and of all smaller ones is accepted, and wants its messages back. -/
  | nack {ch number : Nat} {tag : Tag} {multiple requeue reply : Value}
      (hmultiple : multiple.isTruthy = true) (hrequeue : requeue.isTruthy = true)
      (hdone : (b.step (.request ch number (.basicNack tag multiple requeue))).outcome =
        .replied reply) :
      PutsBack b b (b.earlierOn ch tag) (b.taggedOn ch tag)
        (b.step (.request ch number (.basicNack tag multiple requeue))).broker
  /-- A channel is closed or aborted. -/
  | ended {ch number : Nat} {p : Amqp.Channel.Primitive} {reply : Value} (hp : p.IsEnd)
      (hdone : (b.step (.request ch number p)).outcome = .replied reply) :
      PutsBack b b (b.unackedOn ch) [] (b.step (.request ch number p)).broker
  /-- The connection drops, and it is the turn of an open channel. -/
  | dropped {ch : Nat} {error : Value} (hopen : (b.cutOff error ch).IsOpen ch) :
      PutsBack b (b.cutOff error ch) ((b.cutOff error ch).unackedOn ch) []
        (b.cutOff error (ch + 1))

variable {b b' b₁ : Broker} {ch number id : Nat} {tag : Tag} {c : Channel} {u : Unacked}
  {hand : List Unacked} {s : Books} {es turned kept : List (Nat × Unacked)}

theorem unackedOn_of_open (hopen : b.openChannel ch = .ok c) : b.unackedOn ch = c.unacked := by
  rw [unackedOn, (openChannel_eq_ok.mp hopen).1]
  rfl

theorem Named.modifyChannel (h : b.Named) (ch : Nat) (f : Channel → Channel) :
    (b.modifyChannel ch f).Named := ⟨h.distinct, h.declared, h.apart⟩

/-! ## Putting copies back -/

/-- Where a copy goes back to depends on the queues alone, and not on what is ready there. -/
theorem destination?_congr (hshells : b'.shells = b.shells) (u : Unacked) :
    b'.destination? u = b.destination? u := by
  have hfind (b : Broker) : b.destination? u =
      ((b.shells.find? (·.name.sameKey u.queue)).orElse fun _ =>
        b.shells.find? (·.id == u.origin)).map (·.id) := by
    simp only [destination?, queue?, queueById?, shells, List.find?_map, Function.comp_def,
      Queue.shell_name, Queue.shell_id]
    cases b.queues.find? (·.name.sameKey u.queue) with
    | some q => rfl
    | none => cases b.queues.find? (·.id == u.origin) <;> rfl
  rw [hfind, hfind, hshells]

/-- A copy goes to the head of its queue. -/
theorem readyOn_giveBack (b : Broker) (u : Unacked) (id : Nat) :
    (b.giveBack u).readyOn id =
      if b.destination? u = some id then u.copy.marked :: b.readyOn id else b.readyOn id := by
  rw [giveBack, destination?]
  cases hq : (b.queue? u.queue).orElse fun _ => b.queueById? u.origin with
  | none => simp
  | some q =>
    have hready : ((b.modifyQueue q.id fun q =>
        { q with messages := u.copy.marked :: q.messages }).schedule q.id).readyOn id =
          if id = q.id then u.copy.marked :: b.readyOn id else b.readyOn id :=
      readyOn_modifyMessages (mem_of_orElse hq) (u.copy.marked :: ·) id
    simp only [Option.map_some, Option.some.injEq, eq_comm (a := q.id)]
    exact hready

/-- Copies that are put back one after the other come to stand in the opposite order. -/
theorem readyOn_requeue (b : Broker) (es : List (Nat × Unacked)) (id : Nat) :
    (b.requeue (es.map (·.2))).readyOn id = b.boundFor id es.reverse ++ b.readyOn id := by
  induction es generalizing b with
  | nil => rfl
  | cons x es ih =>
    have hsame : ∀ u, (b.giveBack x.2).destination? u = b.destination? u :=
      destination?_congr (alike_giveBack b x.2).shells
    have hrest := ih (b.giveBack x.2)
    rw [readyOn_giveBack] at hrest
    simp only [boundFor, hsame] at hrest ⊢
    refine hrest.trans ?_
    by_cases hdest : b.destination? x.2 = some id <;> simp [hdest]

/-- Queues that may have lost something get their parts back, the last entry first. -/
theorem arranged_requeue (hnamed : b.Named) (hnamed₁ : b₁.Named) (hsheds : b.Sheds b₁)
    (es : List (Nat × Unacked)) : Arranged b es.reverse (b₁.requeue (es.map (·.2))) := by
  intro q hq
  have halike := alike_requeue b₁ (es.map (·.2))
  have hnamed' := halike.named hnamed₁
  have hdest : ∀ u, (b₁.requeue (es.map (·.2))).destination? u = b₁.destination? u :=
    destination?_congr halike.shells
  -- The queue is still there, so what was ready on it did not go.
  have hready : b₁.readyOn q.id = b.readyOn q.id := by
    rcases hsheds.readyOn hnamed q.id with hsame | hgone
    · exact hsame
    · obtain ⟨q₁, hq₁, hid, _⟩ := halike.exists_queue hq
      exact absurd (beq_iff_eq.mpr hid) (List.find?_eq_none.mp hgone q₁ hq₁)
  rw [← hnamed'.readyOn_eq hq, readyOn_requeue, hready]
  simp only [boundFor, hdest]

/-! ## Settlements -/

/-- What is accepted with all smaller tags gives up the named entry, and then the smaller ones. -/
theorem settle_multiple_eq_ok {p : Broker × List Unacked} (h : b.settle ch tag true = .ok p) :
    ∃ n entry f, (b.unackedOn ch).find? (·.1 == n) = some (n, entry) ∧ tag.number? = some n ∧
      p = (b.modifyChannel ch f,
        ((n, entry) :: (b.unackedOn ch).filter (·.1 < n)).map (·.2)) := by
  simp only [settle, Bind.bind, Except.bind] at h
  cases hopen : b.openChannel ch with
  | error f => simp only [hopen, reduceCtorEq] at h
  | ok c =>
    have hunacked := unackedOn_of_open hopen
    simp only [hopen] at h
    split at h
    · cases h
    · rename_i n entry hfind
      obtain ⟨n', hn, hfind⟩ := Option.bind_eq_some_iff.mp hfind
      obtain rfl : n = n' := by simpa using List.find?_some hfind
      simp only [if_pos, Except.ok.injEq] at h
      refine ⟨n, entry, fun c' =>
        { c' with unacked := (c.unacked.filter (·.1 != n)).filter fun x => !(x.1 < n) },
        hunacked ▸ hfind, hn, h.symm.trans ?_⟩
      have hfilter : (c.unacked.filter (·.1 != n)).filter (·.1 < n) =
          c.unacked.filter (·.1 < n) := by
        rw [List.filter_filter]
        refine List.filter_congr fun x _ => ?_
        by_cases hlt : x.1 < n
        · simp [hlt, Nat.ne_of_lt hlt]
        · simp [hlt]
      rw [hunacked, hfilter, List.map_cons]

/-- Where tags ascend, the entry of a tag comes right after those of smaller tags. -/
theorem eq_filter_append {n : Nat} {entry : Unacked} (hes : (es.map (·.1)).Pairwise (· < ·))
    (hfind : es.find? (·.1 == n) = some (n, entry)) :
    es.filter (·.1 == n) = [(n, entry)] ∧
      ∃ after, es = es.filter (·.1 < n) ++ (n, entry) :: after := by
  obtain ⟨_, smaller, larger, rfl, _⟩ := List.find?_eq_some_iff_append.mp hfind
  rw [List.map_append, List.map_cons, List.pairwise_append] at hes
  have hsmaller : ∀ x ∈ smaller, x.1 < n := fun x hx =>
    hes.2.2 x.1 (List.mem_map_of_mem hx) n (List.mem_cons_self ..)
  have hlarger : ∀ x ∈ larger, n < x.1 := fun x hx =>
    (List.pairwise_cons.mp hes.2.1).1 x.1 (List.mem_map_of_mem hx)
  have hnone : smaller.filter (·.1 == n) = [] := List.filter_eq_nil_iff.mpr fun x hx => by
    have hlt := hsmaller x hx
    rw [beq_iff_eq]
    omega
  have hnone' : larger.filter (·.1 == n) = [] := List.filter_eq_nil_iff.mpr fun x hx => by
    have hlt := hlarger x hx
    rw [beq_iff_eq]
    omega
  have hall : smaller.filter (·.1 < n) = smaller :=
    List.filter_eq_self.mpr fun x hx => decide_eq_true (hsmaller x hx)
  have hnone'' : larger.filter (·.1 < n) = [] := List.filter_eq_nil_iff.mpr fun x hx => by
    have hlt := hlarger x hx
    rw [decide_eq_true_eq]
    omega
  refine ⟨?_, larger, ?_⟩
  · simp [List.filter_append, hnone, hnone']
  · simp [List.filter_append, hall, hnone'']

/-- The tags of what waits on a channel ascend, and each message waits once. -/
structure Tidy (es : List (Nat × Unacked)) : Prop where
  ascending : (es.map (·.1)).Pairwise (· < ·)
  once : (es.map (·.2.copy.serial)).Nodup

theorem Tidy.sublist {es' : List (Nat × Unacked)} (h : Tidy es) (hes : es'.Sublist es) :
    Tidy es' :=
  ⟨h.ascending.sublist (hes.map _), h.once.sublist (hes.map _)⟩

/-- Every channel that a chain of shifts leads to is tidy. -/
theorem Shifts.tidy (h : Shifts {} [] b hand s) (ch : Nat) : Tidy (b.unackedOn ch) := by
  rw [unackedOn]
  cases hc : b.channels[ch]? with
  | none => exact ⟨List.Pairwise.nil, List.nodup_nil⟩
  | some c =>
    have hmem := List.mem_of_getElem? hc
    refine ⟨?_, ?_⟩
    · have hordered : c.Ordered := h.ordered (List.forall_mem_nil _) c hmem
      exact (List.pairwise_append.mp hordered).1
    · have hall : ((b.allCopies hand s).map (·.serial)).Nodup :=
        h.serials_perm.nodup_iff.mpr List.nodup_range
      have hwaiting : (c.waiting.map (·.serial)).Sublist ((b.allCopies hand s).map (·.serial)) := by
        have hone : (List.flatMap Channel.waiting [c]).Sublist b.waiting :=
          (List.singleton_sublist.mpr hmem).flatMap Channel.waiting
        rw [List.flatMap_singleton] at hone
        have hplaces : b.waiting.Sublist (b.allCopies hand s) :=
          ((List.sublist_append_right ..).trans (List.sublist_append_left ..)).trans
            (List.sublist_append_left ..)
        exact (hone.trans hplaces).map _
      have hsame : c.waiting.map (·.serial) = c.unacked.map (·.2.copy.serial) := by
        rw [Channel.waiting, List.map_map]
        rfl
      exact hsame ▸ hall.sublist hwaiting

/-- A settlement of a tag and of all smaller ones puts the entry of the tag back first. -/
theorem requeue_of_nack {multiple requeue reply : Value} (hes : Tidy (b.unackedOn ch))
    (hmultiple : multiple.isTruthy = true) (hrequeue : requeue.isTruthy = true)
    (hdone : (b.step (.request ch number (.basicNack tag multiple requeue))).outcome =
      .replied reply) :
    ∃ x f, b.taggedOn ch tag = [x] ∧ (∃ after, b.unackedOn ch = b.earlierOn ch tag ++ x :: after) ∧
      (b.step (.request ch number (.basicNack tag multiple requeue))).broker =
        (b.modifyChannel ch f).requeue ((x :: b.earlierOn ch tag).map (·.2)) := by
  simp only [step, request] at hdone ⊢
  cases hopen : b.openChannel ch with
  | error f => simp only [hopen, reduceCtorEq] at hdone
  | ok c =>
    simp only [hopen, perform, hmultiple, hrequeue, if_true] at hdone ⊢
    cases hsettle : b.settle ch tag true with
    | error f => simp [hsettle, Except.map, attempt] at hdone
    | ok p =>
      obtain ⟨n, entry, f, hfind, hn, rfl⟩ := settle_multiple_eq_ok hsettle
      obtain ⟨hunder, hafter⟩ := eq_filter_append hes.ascending hfind
      refine ⟨(n, entry), f, ?_, ?_, ?_⟩
      · simpa only [taggedOn, hn, Option.any_some] using hunder
      · simpa only [earlierOn, hn, Option.any_some] using hafter
      · simp only [earlierOn, hn, Option.any_some]
        rfl

/-! ## Channels that end -/

/-- A channel that ends gives back all that waits, the last tag first. -/
theorem arranged_terminate (hnamed : b.Named) (hopen : b.IsOpen ch) (error : Option Value) :
    Arranged b (b.unackedOn ch).reverse (b.terminate ch error).1 := by
  obtain ⟨c, hopen⟩ := hopen
  simp only [terminate, hopen, unackedOn_of_open hopen]
  have hended : Named (b.modifyChannel ch .ended) := hnamed.modifyChannel ch _
  exact arranged_requeue hnamed ((relieved_removeConsumers hended c.consumers).named hended)
    ((Sheds.modifyChannel b ch _).trans (.removeConsumers _ _)) c.unacked

/-- A close or an abort is carried out in the same way, whether or not the channel is open. -/
theorem exists_endChannel (b : Broker) (ch number : Nat) {p : Amqp.Channel.Primitive}
    (hp : p.IsEnd) :
    ∃ verb params, b.step (.request ch number p) = b.endChannel ch verb params := by
  cases p with
  | close params =>
    refine ⟨"close", params, ?_⟩
    simp only [step, request]
    cases b.openChannel ch <;> rfl
  | abort params =>
    refine ⟨"abort", params, ?_⟩
    simp only [step, request]
    cases b.openChannel ch <;> rfl
  | _ => cases hp

/-- A close or an abort that succeeds ends an open channel, which has noted it. -/
theorem exists_terminate_of_ended {p : Amqp.Channel.Primitive} {reply : Value} (hp : p.IsEnd)
    (hdone : (b.step (.request ch number p)).outcome = .replied reply) :
    ∃ text, (b.modifyChannel ch fun c => { c with calls := c.calls ++ [text] }).IsOpen ch ∧
      (b.step (.request ch number p)).broker =
        ((b.modifyChannel ch fun c =>
          { c with calls := c.calls ++ [text] }).terminate ch none).1 := by
  obtain ⟨verb, params, hstep⟩ := exists_endChannel b ch number hp
  rw [hstep] at hdone ⊢
  simp only [endChannel] at hdone ⊢
  cases htext : callText verb params with
  | error thrown => simp only [htext, reduceCtorEq] at hdone
  | ok text =>
    simp only [htext] at hdone ⊢
    refine ⟨text, ?_⟩
    cases hopen : Broker.openChannel _ ch with
    | error f => simp only [hopen, reduceCtorEq] at hdone
    | ok c => exact ⟨⟨c, hopen⟩, rfl⟩

/-! ## Moments at which messages are put back -/

/-- Whatever a broker goes through while its connection drops is reached by a chain of shifts. -/
theorem shifts_cutOff (h : Shifts {} [] b [] s) (error : Value) (count : Nat) :
    ∃ t, Shifts {} [] (b.cutOff error count) [] t :=
  ⟨_, h.trans (shifts_disconnect b [] error (List.range count))⟩

/-- What is put back was tidy. -/
theorem PutsBack.tidy (h : PutsBack b b₁ turned kept b') (hs : Shifts {} [] b [] s) :
    Tidy (turned ++ kept) := by
  cases h with
  | @nack ch _ _ _ _ _ hmultiple hrequeue hdone =>
    obtain ⟨x, f, hunder, ⟨after, hafter⟩, _⟩ :=
      requeue_of_nack (hs.tidy ch) hmultiple hrequeue hdone
    refine (hs.tidy ch).sublist ?_
    rw [hunder, hafter]
    exact (List.Sublist.refl _).append (List.singleton_sublist.mpr (List.mem_cons_self ..))
  | ended =>
    rw [List.append_nil]
    exact hs.tidy _
  | @dropped ch error =>
    obtain ⟨t, ht⟩ := shifts_cutOff hs error ch
    rw [List.append_nil]
    exact ht.tidy ch

/-- The entries before a settlement's tag, and all of a channel that ends, are turned around. -/
theorem PutsBack.arranged (h : PutsBack b b₁ turned kept b') (hs : Shifts {} [] b [] s)
    (hnamed : b.Named) : Arranged b₁ (turned.reverse ++ kept) b' := by
  cases h with
  | @nack ch number tag multiple requeue reply hmultiple hrequeue hdone =>
    obtain ⟨x, f, hunder, _, hbroker⟩ := requeue_of_nack (hs.tidy ch) hmultiple hrequeue hdone
    rw [hunder, hbroker, ← List.reverse_cons]
    exact arranged_requeue hnamed (hnamed.modifyChannel ch f) (.modifyChannel b ch f) _
  | @ended ch number p reply hp hdone =>
    obtain ⟨text, hopen, hbroker⟩ := exists_terminate_of_ended hp hdone
    have hsame : (b.modifyChannel ch fun c => { c with calls := c.calls ++ [text] }).unackedOn ch =
        b.unackedOn ch := by
      rw [unackedOn, unackedOn, modifyChannel, List.getElem?_modify_eq]
      cases b.channels[ch]? <;> rfl
    have harranged := arranged_terminate (hnamed.modifyChannel ch _) hopen none
    rw [List.append_nil, hbroker, ← hsame]
    exact harranged
  | @dropped ch error hopen =>
    have hdropped : (b.cutOff error ch).Named :=
      (relieved_terminates hnamed (some error) List.nodup_range).named hnamed
    have hnext : b.cutOff error (ch + 1) = ((b.cutOff error ch).terminate ch (some error)).1 := by
      rw [cutOff, List.range_succ, List.foldl_append]
      rfl
    rw [List.append_nil, hnext]
    exact arranged_terminate hdropped hopen (some error)

/-! ## Orders -/

/-- A list without repetitions is the same backwards if it is short, and else not. -/
theorem reverse_eq_self_iff {α : Type} {l : List α} (h : l.Nodup) :
    l.reverse = l ↔ l.length ≤ 1 := by
  constructor
  · intro hsame
    cases List.Palindrome.of_reverse_eq hsame with
    | nil => exact Nat.zero_le 1
    | singleton => exact Nat.le_refl 1
    | cons_concat x => simp at h
  · intro hshort
    cases l with
    | nil => rfl
    | cons x l =>
      obtain rfl : l = [] :=
        List.eq_nil_of_length_eq_zero (Nat.le_zero.mp (Nat.le_of_succ_le_succ hshort))
      rfl

theorem boundFor_append (b : Broker) (id : Nat) (es es' : List (Nat × Unacked)) :
    b.boundFor id (es ++ es') = b.boundFor id es ++ b.boundFor id es' := by
  rw [boundFor, List.filter_append, List.map_append, boundFor, boundFor]

theorem boundFor_reverse (b : Broker) (id : Nat) (es : List (Nat × Unacked)) :
    b.boundFor id es.reverse = (b.boundFor id es).reverse := by
  rw [boundFor, List.filter_reverse, List.map_reverse, boundFor]

/-- A copy goes back to a queue that is there. -/
theorem exists_queue_of_destination? (h : b.destination? u = some id) :
    ∃ q ∈ b.queues, q.id = id := by
  obtain ⟨q, hq, hid⟩ := Option.map_eq_some_iff.mp h
  exact ⟨q, mem_of_orElse hq, hid⟩

/-- An order and the one that turns some entries around put the same on the queues exactly if no two
of those go to one queue. -/
theorem arranged_iff_of_reverse (htidy : Tidy (turned ++ kept))
    (h : Arranged b (turned.reverse ++ kept) b') :
    Arranged b (turned ++ kept) b' ↔ ∀ id, (b'.boundFor id turned).length ≤ 1 := by
  -- Copies have numbers of their own, so an order and its reverse agree only where it is short.
  have honce : ∀ id, (b'.boundFor id turned).Nodup := by
    intro id
    have hserials : ((b'.boundFor id turned).map (·.serial)).Nodup := by
      rw [boundFor, List.map_map]
      exact (htidy.sublist ((List.filter_sublist).trans (List.sublist_append_left ..))).once
    exact hserials.of_map _
  have hqueue : ∀ q ∈ b'.queues, (q.messages = b'.boundFor q.id (turned ++ kept) ++ b.readyOn q.id ↔
      (b'.boundFor q.id turned).length ≤ 1) := by
    intro q hq
    rw [h q hq, boundFor_append, boundFor_append, boundFor_reverse, List.append_assoc,
      List.append_assoc, List.append_cancel_right_eq]
    exact reverse_eq_self_iff (honce q.id)
  constructor
  · intro harranged id
    cases hnone : b'.boundFor id turned with
    | nil => exact Nat.zero_le 1
    | cons x rest =>
      obtain ⟨y, hy, _⟩ := List.mem_map.mp (hnone ▸ List.mem_cons_self (a := x) (l := rest))
      obtain ⟨q, hq, rfl⟩ := exists_queue_of_destination? (beq_iff_eq.mp (List.mem_filter.mp hy).2)
      exact hnone ▸ (hqueue q hq).mp (harranged q hq)
  · exact fun hshort q hq => (hqueue q hq).mpr (hshort q.id)

/-- What becomes of the order when messages are put back. A settlement puts the smaller tags back in
the opposite order, and the named one after them; a channel that ends, by itself or with its
connection, puts everything back in the opposite order. So each queue that is left has its messages
at its head in the order of the tags exactly if no two of those that are turned around go to one
queue; what was ready before follows, unchanged. -/
theorem requeued_in_order_iff {events : List Event}
    (h : PutsBack (reached events) b turned kept b') :
    ((turned ++ kept).map (·.1)).Pairwise (· < ·) ∧
      Arranged b (turned.reverse ++ kept) b' ∧
      (Arranged b (turned ++ kept) b' ↔ ∀ id, (b'.boundFor id turned).length ≤ 1) := by
  have hs : Shifts {} [] (reached events) [] (books events) := shifts_run keyed_empty events
  have htidy := h.tidy hs
  have harranged := h.arranged hs (named_reached events)
  exact ⟨htidy.ascending, harranged, arranged_iff_of_reverse htidy harranged⟩

/-- A consumer is handed three messages of one queue and settles none of them. -/
def threeWaiting : List Event :=
  [.openChannel,
    .request 0 0 (.queueDeclare (some (.table
      [("name", .text "jobs"), ("autoDelete", .bool false)]))),
    .request 0 1 (.basicPublish (.text "") (.text "jobs") (.table []) (.bytes [1])),
    .request 0 2 (.basicPublish (.text "") (.text "jobs") (.table []) (.bytes [2])),
    .request 0 3 (.basicPublish (.text "") (.text "jobs") (.table []) (.bytes [3])),
    .request 0 4 (.basicConsume (.text "jobs") (.table [("consumerTag", .text "ctag")])),
    .serve]

/-- The broker once a settlement of the third message and of all before it wants them back. -/
def backAgain : Broker :=
  ((reached threeWaiting).step
    (.request 0 5 (.basicNack (.assigned 3) (.bool true) (.bool true)))).broker

/-- In that run the first two messages come back in the opposite order, and then the third one. -/
theorem requeued_in_order_iff_threeWaiting :
    PutsBack (reached threeWaiting) (reached threeWaiting)
        ((reached threeWaiting).earlierOn 0 (.assigned 3))
        ((reached threeWaiting).taggedOn 0 (.assigned 3)) backAgain ∧
      Arranged (reached threeWaiting)
        (((reached threeWaiting).earlierOn 0 (.assigned 3)).reverse ++
          (reached threeWaiting).taggedOn 0 (.assigned 3)) backAgain ∧
      (backAgain.readyOn 0).map (fun c => (c.serial, c.redelivered)) =
        [(1, true), (0, true), (2, true)] := by
  have hback : PutsBack (reached threeWaiting) (reached threeWaiting)
      ((reached threeWaiting).earlierOn 0 (.assigned 3))
      ((reached threeWaiting).taggedOn 0 (.assigned 3)) backAgain := .nack rfl rfl rfl
  exact ⟨hback, (requeued_in_order_iff hback).2.1, rfl⟩

/-- Messages that are put back together need not come to stand in the order of their tags. -/
theorem exists_requeued_out_of_order :
    ∃ events b turned kept b', PutsBack (reached events) b turned kept b' ∧
      ¬Arranged b (turned ++ kept) b' := by
  have hback : PutsBack (reached threeWaiting) (reached threeWaiting)
      ((reached threeWaiting).earlierOn 0 (.assigned 3))
      ((reached threeWaiting).taggedOn 0 (.assigned 3)) backAgain := .nack rfl rfl rfl
  refine ⟨threeWaiting, _, _, _, _, hback, fun harranged => ?_⟩
  have hmessages := harranged (backAgain.queues.head (List.cons_ne_nil _ _)) (List.head_mem _)
  have hserials : [1, 0, 2] = [0, 1, 2] := congrArg (List.map Copy.serial) hmessages
  exact absurd hserials (by decide)

end Amqp.Broker
