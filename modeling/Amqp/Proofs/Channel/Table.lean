import Amqp.Proofs.Channel.Step
import Amqp.Proofs.Delivery.TagMap
import Mathlib.Logic.Function.Basic

/-!
# The table of the tags that have to be settled

A table says for each tag in which state it is, and which tags are outstanding. Messages add tags to
it, settlements that are accepted move tags to a terminal state, and the end of the channel leaves
nothing outstanding; nothing else changes it.
-/

namespace Amqp.Channel

/-- The tags that have to be settled: the state of each one, and which are outstanding. -/
structure Table where
  isOpen : Bool := true
  state? : Nat → Option DeliveryState := fun _ => none
  outstanding : List Nat := []

/-- What happens to a table. -/
inductive Table.Event where
  /-- A message arrives that has to be settled. -/
  | arrived (n : Nat)
  /-- A settlement is accepted, of one tag or of all tags up to it. -/
  | accepted (n : Nat) (all : Bool) (s : Settlement)
  /-- The channel is closed. -/
  | closed
  deriving Repr

namespace Table

/-- One step of a table. -/
def step (t : Table) : Event → Table
  | .arrived n =>
    if t.isOpen then
      { t with
        state? := Function.update t.state? n (some .unacknowledged)
        outstanding := t.outstanding ++ [n] }
    else t
  | .accepted n all s =>
    { t with
      state? := fun k =>
        if k = n ∨ (all = true ∧ k < n ∧ k ∈ t.outstanding) then some s.state else t.state? k
      outstanding := t.outstanding.filter fun k => ¬Covers n all k }
  | .closed => { t with isOpen := false, outstanding := [] }

/-- The outstanding tags are those that wait, as long as the channel is open. -/
def Sound (t : Table) : Prop :=
  ∀ k, k ∈ t.outstanding ↔ t.isOpen = true ∧ t.state? k = some .unacknowledged

/-- A table without tags is sound. -/
theorem sound_empty : Sound {} := by
  intro k
  simp

/-- What is outstanding after a settlement is accepted. -/
theorem mem_outstanding_accepted {t : Table} {n k : Nat} {all : Bool} {s : Settlement} :
    k ∈ (t.step (.accepted n all s)).outstanding ↔ k ∈ t.outstanding ∧ ¬Covers n all k := by
  simp [step]

/-- Every step keeps a table sound. -/
theorem Sound.step {t : Table} (h : t.Sound) (e : Event) : (t.step e).Sound := by
  intro k
  cases e with
  | arrived n =>
    cases hopen : t.isOpen with
    | false =>
      rw [Table.step, hopen, if_neg Bool.false_ne_true]
      exact h k
    | true =>
      simp only [Table.step, hopen, if_true, List.mem_append, List.mem_singleton, true_and, h k]
      by_cases hk : k = n
      · simp [hk]
      · simp [hk]
  | accepted n all s =>
    rw [mem_outstanding_accepted]
    simp only [Table.step]
    by_cases hcovered : k = n ∨ (all = true ∧ k < n ∧ k ∈ t.outstanding)
    · rw [if_pos hcovered]
      constructor
      · rintro ⟨hk, hnot⟩
        rcases hcovered with rfl | ⟨hall, hlow, _⟩
        · exact absurd (.inl rfl) hnot
        · exact absurd (.inr ⟨hall, hlow⟩) hnot
      · rintro ⟨_, hwaits⟩
        exact absurd (Option.some.inj hwaits) s.state_ne
    · rw [if_neg hcovered, ← h k]
      constructor
      · exact And.left
      · intro hk
        refine ⟨hk, ?_⟩
        rintro (rfl | ⟨hall, hlow⟩)
        · exact hcovered (.inl rfl)
        · exact hcovered (.inr ⟨hall, hlow, hk⟩)
  | closed => simp [Table.step]

end Table

end Amqp.Channel
