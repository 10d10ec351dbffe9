import Amqp.Error.Operation

/-!
# Which thrown values cannot be described

Every value has a text, but for a table that hides its own conversion, and a list that holds
something without a text. A failure made by an operation describes what was thrown; an error
describes itself by its message and needs no text, anything else does.
-/

namespace Amqp

namespace Value

/-- The value hides its own conversion, or it is a list with such a value in it. -/
inductive Wordless : Value → Prop where
  | table {fields : List (String × Value)} (h : (fieldIn? "toString" fields).isSome = true) :
      Wordless (.table fields)
  | error {name message : String} {fields : List (String × Value)}
      (h : (fieldIn? "toString" fields).isSome = true) : Wordless (.error name message fields)
  | list {xs : List Value} {x : Value} (hx : x ∈ xs) (h : Wordless x) : Wordless (.list xs)

/-- An element of a list contributes its text, and nothing if it is not given. -/
theorem elementTexts?_cons (x : Value) (xs : List Value) :
    elementTexts? (x :: xs) =
      if x.isGiven then x.text?.bind fun t => (elementTexts? xs).map (t :: ·)
      else (elementTexts? xs).map ("" :: ·) := by
  cases x with
  | undefined | null => rfl
  | _ =>
    simp only [elementTexts?, isGiven, ite_true]
    cases text? _ <;> cases elementTexts? xs <;> rfl

/-- The elements of a list have texts, unless one that is given has none. -/
theorem elementTexts?_cons_eq_none_iff (x : Value) (xs : List Value) :
    elementTexts? (x :: xs) = none ↔
      (x.isGiven = true ∧ x.text? = none) ∨ elementTexts? xs = none := by
  rw [elementTexts?_cons]
  cases hgiven : x.isGiven with
  | false => simp
  | true => cases hx : x.text? <;> simp

mutual

/-- A value has no text exactly if it hides its conversion or holds something that does. -/
theorem text?_eq_none_iff : (v : Value) → (v.text? = none ↔ v.Wordless)
  | .undefined | .null | .bool _ | .number _ | .bigint _ | .text _ | .bytes _ => by
    simp only [text?, reduceCtorEq, false_iff]
    exact nofun
  | .table fields => by
    have htext : (table fields).text? = none ↔ (fieldIn? "toString" fields).isSome = true := by
      simp [text?, Option.isSome_iff_ne_none]
    rw [htext]
    refine ⟨.table, fun h => ?_⟩
    cases h with
    | table h => exact h
  | .error name message fields => by
    have htext : (error name message fields).text? = none ↔
        (fieldIn? "toString" fields).isSome = true := by
      simp [text?, Option.isSome_iff_ne_none]
    rw [htext]
    refine ⟨.error, fun h => ?_⟩
    cases h with
    | error h => exact h
  | .list xs => by
    rw [text?, Option.map_eq_none_iff, elementTexts?_eq_none_iff xs]
    refine ⟨fun ⟨x, hx, h⟩ => .list hx h, fun h => ?_⟩
    cases h with
    | list hx h => exact ⟨_, hx, h⟩

/-- The elements of a list have texts, unless one of them has none. -/
theorem elementTexts?_eq_none_iff :
    (xs : List Value) → (elementTexts? xs = none ↔ ∃ x ∈ xs, x.Wordless)
  | [] => by simp [elementTexts?]
  | x :: xs => by
    have hgiven : x.isGiven = true ∧ x.text? = none ↔ x.Wordless := by
      rw [text?_eq_none_iff x]
      refine ⟨And.right, fun h => ⟨?_, h⟩⟩
      cases h <;> rfl
    rw [elementTexts?_cons_eq_none_iff, hgiven, elementTexts?_eq_none_iff xs]
    simp

end

/-- The value is an error. -/
def IsError (v : Value) : Prop := ∃ name message fields, v = .error name message fields

/-- The value cannot be described when it is thrown: it has no text, and it is no error. -/
def HidesText (v : Value) : Prop :=
  v.Wordless ∧ ∀ name message fields, v ≠ .error name message fields

theorem IsError.not_hidesText {v : Value} (h : v.IsError) : ¬v.HidesText := by
  rintro ⟨-, hne⟩
  obtain ⟨name, message, fields, rfl⟩ := h
  exact hne name message fields rfl

end Value

/-- A thrown value that cannot be described raises an error in its place. -/
theorem describe_of_hidesText {v : Value} (h : v.HidesText) : describe v = .error noTextFault := by
  obtain ⟨hwordless, hne⟩ := h
  have htext := (Value.text?_eq_none_iff v).mpr hwordless
  cases v with
  | error name message fields => exact absurd rfl (hne name message fields)
  | _ => simp only [describe, htext]

/-- Every other thrown value has a description. -/
theorem describe_of_not_hidesText {v : Value} (h : ¬v.HidesText) :
    ∃ detail, describe v = .ok detail := by
  by_cases herror : v.IsError
  · obtain ⟨name, message, fields, rfl⟩ := herror
    exact ⟨message, rfl⟩
  · have hne : ∀ name message fields, v ≠ .error name message fields :=
      fun name message fields he => herror ⟨name, message, fields, he⟩
    have hwords : v.text? ≠ none := fun hnone => h ⟨(Value.text?_eq_none_iff v).mp hnone, hne⟩
    obtain ⟨t, ht⟩ := Option.ne_none_iff_exists'.mp hwords
    refine ⟨t, ?_⟩
    cases v with
    | error name message fields => exact absurd rfl (hne name message fields)
    | _ => simp only [describe, ht]

/-- What a caller gets when an operation of that kind fails on a thrown value: a failure that keeps
the value as its cause, unless the value cannot be described. -/
inductive Fails (kind : OperationKind) (thrown : Value) : Except Value OperationError → Prop where
  | described (e : OperationError) (h : ¬thrown.HidesText) (hkind : e.kind = kind)
      (hcause : e.cause = thrown) : Fails kind thrown (.ok e)
  | broken (h : thrown.HidesText) : Fails kind thrown (.error noTextFault)

/-- An operation fails on every thrown value in one of the two ways. -/
theorem fails_ofThrown (kind : OperationKind) (summary : String) (thrown : Value) :
    Fails kind thrown (OperationError.ofThrown kind summary thrown) := by
  unfold OperationError.ofThrown
  by_cases h : thrown.HidesText
  · rw [describe_of_hidesText h]
    exact .broken h
  · obtain ⟨detail, hdetail⟩ := describe_of_not_hidesText h
    rw [hdetail]
    exact .described _ h rfl rfl

end Amqp
