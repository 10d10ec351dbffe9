import Mathlib.Data.List.Induction
import Mathlib.Data.List.Nodup

/-!
# What the steps of a run come to

A machine goes from state to state, and each of its steps comes to a list of things. What a run
comes to is the lists of its steps, one after the other: something is in it exactly if some step of
the run comes to it, in the state that the events before have led to.
-/

namespace Amqp

variable {σ ε α : Type}

/-- What the steps of a run come to, one after the other. -/
def gathered (next : σ → ε → σ) (f : σ → ε → List α) (s : σ) : List ε → List α
  | [] => []
  | e :: rest => f s e ++ gathered next f (next s e) rest

section

variable {next : σ → ε → σ} {f : σ → ε → List α} {s : σ} {events : List ε}

theorem gathered_append (s : σ) (u v : List ε) :
    gathered next f s (u ++ v) = gathered next f s u ++ gathered next f (u.foldl next s) v := by
  induction u generalizing s with
  | nil => rfl
  | cons e u ih => rw [List.cons_append, gathered, gathered, ih, List.append_assoc, List.foldl_cons]

/-- The last event of a run comes last. -/
theorem gathered_concat (s : σ) (u : List ε) (e : ε) :
    gathered next f s (u ++ [e]) = gathered next f s u ++ f (u.foldl next s) e := by
  rw [gathered_append, gathered, gathered, List.append_nil]

/-- What is gathered comes from some step of the run. -/
theorem mem_gathered {x : α} :
    x ∈ gathered next f s events ↔ ∃ u e v, events = u ++ e :: v ∧ x ∈ f (u.foldl next s) e := by
  induction events generalizing s with
  | nil => simp [gathered]
  | cons e events ih =>
    rw [gathered, List.mem_append, ih]
    constructor
    · rintro (hx | ⟨u, e', v, rfl, hx⟩)
      · exact ⟨[], e, events, rfl, hx⟩
      · exact ⟨e :: u, e', v, rfl, hx⟩
    · rintro ⟨u, e', v, hsplit, hx⟩
      cases u with
      | nil =>
        obtain ⟨rfl, rfl⟩ := List.cons.inj hsplit
        exact .inl hx
      | cons x u =>
        obtain ⟨rfl, rfl⟩ := List.cons.inj hsplit
        exact .inr ⟨u, e', v, rfl, hx⟩

end

/-! ## Machines whose steps have effects -/

/-- The state at the end of a run, and the effects of all its steps, in order. -/
def played (step : σ → ε → σ × List α) (s : σ) (events : List ε) : σ × List α :=
  (events.foldl (fun s e => (step s e).1) s,
    gathered (fun s e => (step s e).1) (fun s e => (step s e).2) s events)

variable {step : σ → ε → σ × List α} {s : σ} {events : List ε}

/-- The last event of a run is one step. -/
theorem played_concat (s : σ) (u : List ε) (e : ε) :
    played step s (u ++ [e]) =
      ((step (played step s u).1 e).1, (played step s u).2 ++ (step (played step s u).1 e).2) := by
  rw [played, List.foldl_append, gathered_concat]
  rfl

/-- Every effect of a run is one of some step. -/
theorem mem_played {x : α} : x ∈ (played step s events).2 ↔
    ∃ u e v, events = u ++ e :: v ∧ x ∈ (step (played step s u).1 e).2 := mem_gathered

/-- What each step gives once, and no two steps both give, a run gives once. -/
theorem nodup_filterMap_played {β : Type} {g : α → Option β}
    (hstep : ∀ u e v, events = u ++ e :: v → ((step (played step s u).1 e).2.filterMap g).Nodup)
    (hapart : ∀ u e v e' w, events = u ++ e :: (v ++ e' :: w) →
      ∀ x ∈ (step (played step s u).1 e).2.filterMap g,
        x ∉ (step (played step s (u ++ e :: v)).1 e').2.filterMap g) :
    ((played step s events).2.filterMap g).Nodup := by
  induction events using List.reverseRecOn with
  | nil => exact List.nodup_nil
  | append_singleton u e ih =>
    rw [played_concat, List.filterMap_append, List.nodup_append']
    refine ⟨ih (fun u' e' v h => hstep u' e' (v ++ [e]) (by simp [h])) ?_, hstep u e [] rfl, ?_⟩
    · exact fun u' e' v e'' w h => hapart u' e' v e'' (w ++ [e]) (by simp [h])
    · intro x hx hx'
      obtain ⟨f, hf, hg⟩ := List.mem_filterMap.mp hx
      obtain ⟨u', e', v, rfl, hmem⟩ := mem_played.mp hf
      exact hapart u' e' v e [] (by simp) x (List.mem_filterMap.mpr ⟨f, hmem, hg⟩) hx'

/-! ## One list, taken apart twice -/

variable {u v u' v' : List ε} {a b : ε}

/-- Two elements of a list: one of them comes before the other one, or they are the same one. -/
theorem append_cons_cases (h : u ++ a :: v = u' ++ b :: v') :
    (∃ w, u' = u ++ a :: w ∧ v = w ++ b :: v') ∨ (u = u' ∧ a = b ∧ v = v') ∨
      ∃ w, u = u' ++ b :: w ∧ v' = w ++ a :: v := by
  rcases List.append_eq_append_iff.mp h with ⟨w, hu, hw⟩ | ⟨w, hu, hw⟩
  · cases w with
    | nil =>
      obtain ⟨rfl, rfl⟩ := List.cons.inj hw
      exact .inr (.inl ⟨by simpa using hu.symm, rfl, rfl⟩)
    | cons x w =>
      obtain ⟨rfl, rfl⟩ := List.cons.inj hw
      exact .inl ⟨w, hu, rfl⟩
  · cases w with
    | nil =>
      obtain ⟨rfl, rfl⟩ := List.cons.inj hw
      exact .inr (.inl ⟨by simpa using hu, rfl, rfl⟩)
    | cons x w =>
      obtain ⟨rfl, rfl⟩ := List.cons.inj hw
      exact .inr (.inr ⟨w, hu, rfl⟩)

/-- An element of a list is its last one, or it comes before that. -/
theorem concat_eq_append_cons_iff :
    u ++ [a] = u' ++ b :: v' ↔
      (u' = u ∧ b = a ∧ v' = []) ∨ ∃ w, v' = w ++ [a] ∧ u = u' ++ b :: w := by
  constructor
  · intro h
    rcases v'.eq_nil_or_concat' with rfl | ⟨w, x, rfl⟩
    · obtain ⟨rfl, hlast⟩ := List.append_inj' h rfl
      exact .inl ⟨rfl, (List.cons.inj hlast).1.symm, rfl⟩
    · rw [← List.cons_append, ← List.append_assoc] at h
      obtain ⟨rfl, hlast⟩ := List.append_inj' h rfl
      exact .inr ⟨w, by rw [(List.cons.inj hlast).1], rfl⟩
  · rintro (⟨rfl, rfl, rfl⟩ | ⟨w, rfl, rfl⟩)
    · rfl
    · simp

/-- Where numbers are given once, an element with a number is in one place. -/
theorem append_cons_unique {f : ε → Option α} {n : α}
    (hnodup : ((u ++ a :: v).filterMap f).Nodup) (ha : f a = some n) (hb : f b = some n)
    (h : u ++ a :: v = u' ++ b :: v') : u = u' ∧ a = b ∧ v = v' := by
  have htwice {x y z : List ε} {a b : ε} (ha : f a = some n) (hb : f b = some n) :
      ¬((x ++ a :: (y ++ b :: z)).filterMap f).Nodup := by
    simp [List.filterMap_cons_some ha, List.filterMap_cons_some hb, List.nodup_append]
  rcases append_cons_cases h with ⟨w, rfl, rfl⟩ | hsame | ⟨w, rfl, rfl⟩
  · exact absurd hnodup (htwice ha hb)
  · exact hsame
  · rw [List.append_assoc] at hnodup
    exact absurd hnodup (htwice hb ha)

/-! ## Things with keys of their own -/

/-- Where no two things have the same key, a thing is found by its key. -/
theorem find?_eq_some_iff_of_nodup {κ : Type} [BEq κ] [LawfulBEq κ] {key : α → κ} {as : List α}
    {k : κ} {x : α} (hn : (as.map key).Nodup) :
    as.find? (key · == k) = some x ↔ x ∈ as ∧ key x = k := by
  constructor
  · intro h
    exact ⟨List.mem_of_find?_eq_some h, by simpa using List.find?_some h⟩
  · rintro ⟨hx, rfl⟩
    cases h : as.find? (key · == key x) with
    | none =>
      have hne : ¬key x = key x := by simpa using List.find?_eq_none.mp h x hx
      exact absurd rfl hne
    | some y =>
      have hkey : key y = key x := by simpa using List.find?_some h
      rw [List.inj_on_of_nodup_map hn (List.mem_of_find?_eq_some h) hx hkey]

end Amqp
