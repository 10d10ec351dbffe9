import Amqp.Proofs.Text.Split
import Amqp.Topic
import Mathlib.Data.List.Forall2

/-!
# What a pattern matches

The words of a text are what is left of it when it is cut at every point. A pattern matches a key
exactly if its words, each replaced by words that it stands for, are the words of the key. The three
equations for `Expands` follow the three ways in which a pattern is compared with a key.
-/

namespace Amqp

namespace Topic

variable {p w : Word} {pattern rest key later : List Word}

/-! ## Words -/

/-- The words are what is left of the text when it is cut at every point. -/
structure IsCut (s : String) (ws : List Word) : Prop where
  nonempty : ws ≠ []
  whole : ∀ w ∈ ws, '.' ∉ w
  joined : ['.'].intercalate ws = s.toList

/-- There is one way to cut a text at every point. -/
theorem isCut_iff {s : String} {ws : List Word} : IsCut s ws ↔ ws = words s := by
  constructor
  · intro h
    rw [words, Text.splitOn_eq, ← h.joined, List.splitOn_intercalate '.' h.whole h.nonempty]
  · rintro rfl
    refine ⟨Text.splitOn_ne_nil _ _, fun w hw => Text.notMem_of_mem_splitOn hw, ?_⟩
    rw [words, Text.splitOn_eq, List.intercalate_splitOn]

/-! ## Expansion -/

/-- The words that a word of a pattern stands for. -/
inductive StandsFor : Word → List Word → Prop where
  /-- The word for any number of words stands for any words. -/
  | any (ws : List Word) : StandsFor hash ws
  /-- The word for one word stands for any one. -/
  | one (w : Word) : StandsFor star [w]
  /-- Every other word stands for itself. -/
  | itself {p : Word} (hhash : p ≠ hash) (hstar : p ≠ star) : StandsFor p [p]

/-- The pattern with each of its words replaced by words that it stands for is the key. -/
def Expands (pattern key : List Word) : Prop :=
  ∃ parts, List.Forall₂ StandsFor pattern parts ∧ parts.flatten = key

theorem expands_nil_iff : Expands [] key ↔ key = [] := by
  constructor
  · rintro ⟨parts, hparts, rfl⟩
    cases hparts
    rfl
  · rintro rfl
    exact ⟨[], .nil, rfl⟩

/-- The word for any number of words stands for none, or for one more. -/
theorem expands_hash_iff :
    Expands (hash :: rest) key ↔
      Expands rest key ∨ ∃ w later, key = w :: later ∧ Expands (hash :: rest) later := by
  constructor
  · rintro ⟨_, hparts, rfl⟩
    obtain ⟨ws, parts, _, hrest, rfl⟩ := List.forall₂_cons_left_iff.mp hparts
    cases ws with
    | nil => exact .inl ⟨parts, hrest, rfl⟩
    | cons w ws => exact .inr ⟨w, _, rfl, ws :: parts, .cons (.any ws) hrest, rfl⟩
  · rintro (⟨parts, hrest, rfl⟩ | ⟨w, _, rfl, _, hparts, rfl⟩)
    · exact ⟨[] :: parts, .cons (.any []) hrest, rfl⟩
    · obtain ⟨ws, parts, _, hrest, rfl⟩ := List.forall₂_cons_left_iff.mp hparts
      exact ⟨(w :: ws) :: parts, .cons (.any (w :: ws)) hrest, rfl⟩

/-- Every other word than the one for any number stands for one word. -/
theorem standsFor_iff_of_ne (hp : p ≠ hash) {ws : List Word} :
    StandsFor p ws ↔ ∃ w, ws = [w] ∧ (p = star ∨ p = w) := by
  constructor
  · intro h
    cases h with
    | any => exact absurd rfl hp
    | one w => exact ⟨w, rfl, .inl rfl⟩
    | itself => exact ⟨p, rfl, .inr rfl⟩
  · rintro ⟨w, rfl, rfl | rfl⟩
    · exact .one w
    · by_cases hstar : p = star
      · rw [hstar]
        exact .one star
      · exact .itself hp hstar

theorem expands_cons_iff_of_ne (hp : p ≠ hash) :
    Expands (p :: rest) key ↔
      ∃ w later, key = w :: later ∧ (p = star ∨ p = w) ∧ Expands rest later := by
  constructor
  · rintro ⟨_, hparts, rfl⟩
    obtain ⟨ws, parts, hfirst, hrest, rfl⟩ := List.forall₂_cons_left_iff.mp hparts
    obtain ⟨w, rfl, hw⟩ := (standsFor_iff_of_ne hp).mp hfirst
    exact ⟨w, parts.flatten, rfl, hw, parts, hrest, rfl⟩
  · rintro ⟨w, _, rfl, hw, parts, hrest, rfl⟩
    exact ⟨[w] :: parts, .cons ((standsFor_iff_of_ne hp).mpr ⟨w, rfl, hw⟩) hrest, rfl⟩

/-- The comparison of words finds every way to expand a pattern, and no others. -/
theorem covers_iff_expands : covers pattern key = true ↔ Expands pattern key := by
  fun_induction covers pattern key with
  | case1 key => rw [List.isEmpty_iff, expands_nil_iff]
  | case2 rest key ihRest ihLater =>
    rw [expands_hash_iff, Bool.or_eq_true, ihRest]
    cases key with
    | nil => simp
    | cons w later =>
      simp only [ihLater, List.cons.injEq, and_assoc, exists_eq_left', exists_and_left]
  | case3 p rest hp => simp [expands_cons_iff_of_ne hp]
  | case4 p rest hp w later ih =>
    simp only [expands_cons_iff_of_ne hp, Bool.and_eq_true, Bool.or_eq_true, beq_iff_eq, ih,
      List.cons.injEq, and_assoc, exists_eq_left', exists_and_left]

/-- **Topics.** A pattern matches a key exactly if the words of the key come of those of the
pattern, each replaced by words that it stands for. -/
theorem isMatch_iff_expands (pattern key : String) :
    isMatch pattern key = true ↔ ∃ ps ks, IsCut pattern ps ∧ IsCut key ks ∧ Expands ps ks := by
  simp only [isMatch, covers_iff_expands, isCut_iff, exists_and_left, exists_eq_left]

/-- The word for any number of words stands for none, between others as well as next to another one
of its kind. -/
example : isMatch "app.#.#.*" "app.info" = true ∧ isMatch "app.#.#.*" "app" = false := by cbv

end Topic

end Amqp
