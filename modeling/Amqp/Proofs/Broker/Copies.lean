import Amqp.Proofs.Broker.Balance
import Mathlib.Data.List.Induction

/-!
# Copies along a chain of moves

From the balance of a chain of moves that starts with an empty broker: every number that was used up
belongs to one copy, which is what was published, and which is marked exactly if it has been handed
out.
-/

namespace Amqp.Broker

/-- The copy has that number and has not been handed out. -/
def Copy.isUnmarked (serial : Nat) (c : Copy) : Bool := c.serial == serial && !c.redelivered

/-- Each copy is handed out as redelivered exactly if it has been handed out before. -/
def Flagged (handed : List Handover) : Prop :=
  ∀ u h v, handed = u ++ h :: v →
    (h.copy.redelivered = true ↔ h.copy.serial ∈ u.map (·.copy.serial))

theorem keyed_empty : Keyed {} :=
  ⟨List.nodup_nil, fun _ h => (nomatch h), fun _ h => (nomatch h)⟩

theorem attended_empty : Attended {} :=
  ⟨fun _ h => (nomatch h), fun _ h => (nomatch h), fun _ h => (nomatch h)⟩

variable {b b' : Broker} {hand hand' : List Unacked} {s t : Books} {c : Copy}

namespace Flagged

theorem concat {handed : List Handover} (h : Flagged handed) {x : Handover}
    (hx : x.copy.redelivered = true ↔ x.copy.serial ∈ handed.map (·.copy.serial)) :
    Flagged (handed ++ [x]) := by
  intro u y v hsplit
  rcases List.eq_nil_or_concat v with rfl | ⟨v', z, rfl⟩
  · obtain ⟨rfl, hxy⟩ := List.append_inj' hsplit rfl
    obtain rfl := (List.cons.inj hxy).1
    exact hx
  · rw [List.concat_eq_append, ← List.cons_append, ← List.append_assoc] at hsplit
    exact h u y v' (List.append_inj' hsplit rfl).1

/-- Among the handovers of a copy there is one of it unmarked, the first one. -/
theorem exists_first {handed : List Handover} (h : Flagged handed) {serial : Nat}
    (hserial : serial ∈ handed.map (·.copy.serial)) :
    ∃ x ∈ handed, x.copy.serial = serial ∧ x.copy.redelivered = false := by
  induction handed using List.reverseRecOn with
  | nil => exact nomatch hserial
  | append_singleton handed x ih =>
    have hinit : Flagged handed := by
      intro u y v hsplit
      exact h u y (v ++ [x]) (by simp [hsplit])
    have hlast := h handed x [] rfl
    have hearlier (hmem : serial ∈ handed.map (·.copy.serial)) :
        ∃ y ∈ handed ++ [x], y.copy.serial = serial ∧ y.copy.redelivered = false := by
      obtain ⟨y, hy, hfirst⟩ := ih hinit hmem
      exact ⟨y, List.mem_append_left _ hy, hfirst⟩
    rw [List.map_append, List.mem_append] at hserial
    rcases hserial with hmem | hmem
    · exact hearlier hmem
    · obtain rfl : serial = x.copy.serial := by simpa using hmem
      cases hx : x.copy.redelivered with
      | false => exact ⟨x, by simp, rfl, hx⟩
      | true => exact hearlier (hlast.mp hx)

end Flagged

/-- A move makes at most one copy, which gets the next number. -/
theorem Move.made_cases (h : Move b hand b' hand' t) :
    t.made = [] ∧ b'.copied = b.copied ∨
      ∃ c, t.made = [c] ∧ c.serial = b.copied ∧ c.redelivered = false ∧
        b'.copied = b.copied + 1 := by
  cases h with
  | idle _ _ _ hcopied => exact .inl ⟨rfl, hcopied⟩
  | @put _ _ c _ hc => exact .inr ⟨{ c with serial := b.copied }, rfl, rfl, hc, rfl⟩
  | @returned _ u =>
    rcases giveBack_cases b u with ⟨hsame, _⟩ | ⟨q, _, _, hback⟩
    · exact .inl ⟨rfl, congrArg copied hsame⟩
    · exact .inl ⟨rfl, (congrArg copied hback).trans rfl⟩
  | _ => exact .inl ⟨rfl, rfl⟩

/-- A move hands out at most one copy, which was ready. -/
theorem Move.handed_cases (h : Move b hand b' hand' t) :
    t.handed = [] ∨ ∃ x, t.handed = [x] ∧ x.copy ∈ b.ready := by
  cases h with
  | @handed _ q copy _ s c hq hmessages _ _ =>
    refine .inr ⟨⟨copy, c.nextTag, s⟩, rfl, List.mem_flatMap.mpr ⟨q, hq, ?_⟩⟩
    rw [hmessages]
    exact List.mem_cons_self ..
  | _ => exact .inl rfl

namespace Moves

/-- The copies that were made are numbered in order, and none of them was handed out. -/
theorem numbered (h : Moves {} [] b hand s) :
    s.made.map (·.serial) = List.range b.copied ∧ ∀ c ∈ s.made, c.redelivered = false := by
  induction h with
  | refl => exact ⟨rfl, fun c hc => nomatch hc⟩
  | next _ hmove ih =>
    rcases hmove.made_cases with ⟨hmade, hcopied⟩ | ⟨c, hmade, hserial, hfresh, hcopied⟩
    · rwa [Books.made_append, hmade, List.append_nil, hcopied]
    · rw [Books.made_append, hmade, hcopied, List.map_append, List.range_succ, ih.1]
      refine ⟨by rw [List.map_singleton, hserial], fun c' hc' => ?_⟩
      rcases List.mem_append.mp hc' with hc' | hc'
      · exact ih.2 c' hc'
      · rwa [List.mem_singleton.mp hc']

/-- As many copies are there as were made, of every kind that a handover does not change. -/
theorem countP_eq (h : Moves {} [] b hand s) (p : Copy → Bool)
    (hp : ∀ c : Copy, p c.marked = p c) : (b.allCopies hand s).countP p = s.made.countP p := by
  have hcount := h.balances keyed_empty p
  have hempty : (({} : Broker).allCopies [] {}).countP p = 0 := rfl
  have hhanded : (s.handed.map (·.copy.marked)).countP p = (s.handed.map (·.copy)).countP p := by
    rw [List.countP_map, List.countP_map]
    exact List.countP_congr fun x _ => by simp only [Function.comp_apply, hp]
  omega

/-- A copy is what was published. -/
theorem unmarked_mem (h : Moves {} [] b hand s) (hc : c ∈ b.allCopies hand s) :
    c.unmarked ∈ s.made := by
  classical
  have hcount := h.countP_eq (fun c' => decide (c'.unmarked = c.unmarked)) fun _ => rfl
  have hpos : 0 < (b.allCopies hand s).countP fun c' => decide (c'.unmarked = c.unmarked) :=
    List.countP_pos_iff.mpr ⟨c, hc, by simp⟩
  rw [hcount] at hpos
  obtain ⟨m, hm, hsame⟩ := List.countP_pos_iff.mp hpos
  have hunmarked : m.unmarked = m := by
    have hfresh := h.numbered.2 m hm
    rw [Copy.unmarked, ← hfresh]
  rw [decide_eq_true_eq] at hsame
  rwa [← hsame, hunmarked]

/-- A number that was used up belongs to one copy. -/
theorem countP_serial (h : Moves {} [] b hand s) {serial : Nat} (hserial : serial < b.copied) :
    (b.allCopies hand s).countP (·.serial == serial) = 1 := by
  rw [h.countP_eq _ fun _ => rfl]
  have hcount : s.made.countP (·.serial == serial) = (s.made.map (·.serial)).count serial := by
    rw [List.count, List.countP_map]
    rfl
  rw [hcount, h.numbered.1]
  rw [List.nodup_range.count, if_pos (List.mem_range.mpr hserial)]

/-- The number of a copy has been used up. -/
theorem serial_lt (h : Moves {} [] b hand s) (hc : c ∈ b.allCopies hand s) :
    c.serial < b.copied := by
  have hmem : c.unmarked.serial ∈ s.made.map (·.serial) := List.mem_map_of_mem (h.unmarked_mem hc)
  rw [h.numbered.1] at hmem
  exact List.mem_range.mp hmem

/-- A copy of a number is marked or not. -/
theorem countP_serial_eq (copies : List Copy) (serial : Nat) :
    copies.countP (·.serial == serial) =
      copies.countP (fun c => c.serial == serial && c.redelivered) +
        copies.countP (·.isUnmarked serial) := by
  rw [List.countP_eq_countP_filter_add copies (·.serial == serial) (·.redelivered),
    List.countP_filter, List.countP_filter]
  rfl

/-- A copy is marked exactly if it has been handed out. -/
theorem redelivered_iff (h : Moves {} [] b hand s) (hflagged : Flagged s.handed)
    (hc : c ∈ b.allCopies hand s) :
    c.redelivered = true ↔ c.serial ∈ s.handed.map (·.copy.serial) := by
  -- copies of the number that are not marked and first handovers of it: there is one in all
  have hcount := h.balances keyed_empty (·.isUnmarked c.serial)
  have hempty : (({} : Broker).allCopies [] {}).countP (·.isUnmarked c.serial) = 0 := rfl
  have hmarked : (s.handed.map (·.copy.marked)).countP (·.isUnmarked c.serial) = 0 := by
    simp [List.countP_eq_zero, Copy.isUnmarked]
  have hone : (b.allCopies hand s).countP (·.serial == c.serial) = 1 :=
    h.countP_serial (h.serial_lt hc)
  have hmade : s.made.countP (·.isUnmarked c.serial) = 1 := by
    rw [← hone, h.countP_eq _ fun _ => rfl]
    exact List.countP_congr fun m hm => by simp [Copy.isUnmarked, h.numbered.2 m hm]
  constructor
  · intro hmark
    have hnone : (b.allCopies hand s).countP (·.isUnmarked c.serial) = 0 := by
      have hsplit := countP_serial_eq (b.allCopies hand s) c.serial
      have hpos : 0 < (b.allCopies hand s).countP
          fun c' => c'.serial == c.serial && c'.redelivered :=
        List.countP_pos_iff.mpr ⟨c, hc, by simp [hmark]⟩
      omega
    have hpos : 0 < (s.handed.map (·.copy)).countP (·.isUnmarked c.serial) := by omega
    obtain ⟨c', hc', hfresh⟩ := List.countP_pos_iff.mp hpos
    obtain ⟨x, hx, rfl⟩ := List.mem_map.mp hc'
    simp only [Copy.isUnmarked, Bool.and_eq_true, beq_iff_eq] at hfresh
    exact List.mem_map.mpr ⟨x, hx, hfresh.1⟩
  · intro hserial
    by_contra hmark
    obtain ⟨x, hx, hsame, hfirst⟩ := hflagged.exists_first hserial
    have hpos : 0 < (b.allCopies hand s).countP (·.isUnmarked c.serial) :=
      List.countP_pos_iff.mpr ⟨c, hc, by simp [Copy.isUnmarked, hmark]⟩
    have hpos' : 0 < (s.handed.map (·.copy)).countP (·.isUnmarked c.serial) :=
      List.countP_pos_iff.mpr
        ⟨x.copy, List.mem_map_of_mem hx, by simp [Copy.isUnmarked, hsame, hfirst]⟩
    omega

/-- Along a chain of moves each copy is handed out as redelivered exactly if it was before. -/
theorem flagged (h : Moves {} [] b hand s) : Flagged s.handed := by
  induction h with
  | refl => exact fun u x v hsplit => (nomatch (List.append_eq_nil_iff.mp hsplit.symm).2)
  | next h hmove ih =>
    rcases hmove.handed_cases with hnone | ⟨x, hone, hready⟩
    · rwa [Books.handed_append, hnone, List.append_nil]
    · rw [Books.handed_append, hone]
      refine ih.concat (h.redelivered_iff ih ?_)
      simp [allCopies, hready]

/-- What is handed out is what was published. -/
theorem handed_unmarked (h : Moves {} [] b hand s) : ∀ x ∈ s.handed, x.copy.unmarked ∈ s.made := by
  induction h with
  | refl => exact fun x hx => nomatch hx
  | next h hmove ih =>
    intro x hx
    rw [Books.made_append]
    refine List.mem_append_left _ ?_
    rcases List.mem_append.mp hx with hx | hx
    · exact ih x hx
    · rcases hmove.handed_cases with hnone | ⟨y, hone, hready⟩
      · rw [hnone] at hx
        exact nomatch hx
      · rw [hone] at hx
        rw [List.mem_singleton.mp hx]
        exact h.unmarked_mem (by simp [allCopies, hready])

end Moves

end Amqp.Broker
