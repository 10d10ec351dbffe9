import Amqp.Number.Decimal
import Amqp.Proofs.Number.Rounding
import Mathlib.Data.List.TakeWhile
import Mathlib.Data.Nat.Digits.Defs

/-!
# Integer literals

What a sign and digits denote, as an integer of any size, against what the reader of decimal
literals makes of them. The number of such a literal is the integer itself as long as its magnitude
is below `2 ^ 53`, and it is no safe integer from there on.
-/

namespace Amqp.Decimal

/-- The natural that a run of digits denotes, the last digit counting one. -/
def naturalOf (ds : List Char) : Nat :=
  Nat.ofDigits 10 (ds.reverse.map fun d => d.toNat - '0'.toNat)

/-- A run of at least one digit. -/
def IsDigits (ds : List Char) : Prop := ds ≠ [] ∧ ∀ d ∈ ds, d.isDigit

/-- A literal of digits, with a sign or without, and the integer it denotes. -/
inductive Denotes : List Char → Int → Prop
  | bare {ds} : IsDigits ds → Denotes ds (naturalOf ds)
  | plus {ds} : IsDigits ds → Denotes ('+' :: ds) (naturalOf ds)
  | minus {ds} : IsDigits ds → Denotes ('-' :: ds) (-naturalOf ds)

variable {cs ds : List Char} {n k : Int}

theorem naturalOf_append_singleton (ds : List Char) (d : Char) :
    naturalOf (ds ++ [d]) = 10 * naturalOf ds + (d.toNat - '0'.toNat) := by
  rw [naturalOf, naturalOf, List.reverse_append, List.reverse_singleton, List.singleton_append,
    List.map_cons, Nat.ofDigits_cons]
  exact Nat.add_comm _ _

/-- The reader's left-to-right sum is the natural that the digits denote. -/
theorem digitsValue_eq (ds : List Char) : digitsValue ds = naturalOf ds := by
  induction ds using List.reverseRecOn with
  | nil => rfl
  | append_singleton ds d ih =>
    rw [naturalOf_append_singleton, ← ih, digitsValue, List.foldl_concat]
    rfl

theorem IsDigits.takeWhile (h : IsDigits ds) : ds.takeWhile Char.isDigit = ds :=
  List.takeWhile_eq_self_iff.mpr h.2

theorem IsDigits.dropWhile (h : IsDigits ds) : ds.dropWhile Char.isDigit = [] :=
  List.dropWhile_eq_nil_iff.mpr h.2

/-- Digits begin with no sign. -/
theorem IsDigits.takeSign (h : IsDigits ds) : takeSign ds = (false, ds) := by
  cases ds with
  | nil => rfl
  | cons d rest =>
    have hdigit : d.isDigit := h.2 d List.mem_cons_self
    have hminus : d ≠ '-' := fun heq => absurd (heq ▸ hdigit) (by decide)
    have hplus : d ≠ '+' := fun heq => absurd (heq ▸ hdigit) (by decide)
    simp [Decimal.takeSign, hminus, hplus]

/-- Digits are read as a whole number. -/
theorem IsDigits.readUnsigned? (h : IsDigits ds) (negative : Bool) :
    readUnsigned? negative ds = some ⟨negative, naturalOf ds, 0⟩ := by
  rw [Decimal.readUnsigned?, h.takeWhile, h.dropWhile]
  simp [h.1, readExponent?, ofParts, digitsValue_eq]

/-- A literal of digits is read as the sign and the magnitude of the integer. -/
theorem Denotes.read? (h : Denotes cs n) :
    ∃ s, read? cs = some ⟨s, n.natAbs, 0⟩ ∧ Number.signed s n.natAbs = n := by
  cases h with
  | bare h =>
    refine ⟨false, ?_, rfl⟩
    rw [Decimal.read?, h.takeSign]
    exact h.readUnsigned? false
  | plus h => exact ⟨false, h.readUnsigned? false, rfl⟩
  | minus h =>
    refine ⟨true, ?_, ?_⟩
    · rw [Int.natAbs_neg]
      exact h.readUnsigned? true
    · rw [Int.natAbs_neg]
      rfl

/-- A literal denotes one integer. -/
theorem Denotes.unique (h : Denotes cs n) (h' : Denotes cs k) : n = k := by
  obtain ⟨s, hread, hvalue⟩ := h.read?
  obtain ⟨s', hread', hvalue'⟩ := h'.read?
  rw [hread] at hread'
  injection hread' with heq
  injection heq with hsign hdigits
  rw [← hvalue, ← hvalue', hsign, hdigits]

/-- What stands in front of a literal. -/
theorem takeSign_cases (cs : List Char) :
    (∃ rest, cs = '-' :: rest ∧ takeSign cs = (true, rest)) ∨
      (∃ rest, cs = '+' :: rest ∧ takeSign cs = (false, rest)) ∨ takeSign cs = (false, cs) := by
  rw [takeSign.eq_def]
  split
  · exact .inl ⟨_, rfl, rfl⟩
  · exact .inr (.inl ⟨_, rfl, rfl⟩)
  · exact .inr (.inr rfl)

/-- The literals of digits are recognised. -/
theorem isIntegerLiteral_iff : isIntegerLiteral cs ↔ ∃ n, Denotes cs n := by
  have hdigits : isIntegerLiteral cs ↔ IsDigits (takeSign cs).2 := by
    simp [isIntegerLiteral, IsDigits]
  rw [hdigits]
  constructor
  · intro h
    obtain ⟨rest, rfl, hsign⟩ | ⟨rest, rfl, hsign⟩ | hsign := takeSign_cases cs <;> rw [hsign] at h
    · exact ⟨_, .minus h⟩
    · exact ⟨_, .plus h⟩
    · exact ⟨_, .bare h⟩
  · rintro ⟨n, h⟩
    cases h with
    | bare h => rwa [h.takeSign]
    | plus h => exact h
    | minus h => exact h

/-- The number of a whole decimal is its natural, rounded. -/
theorem toNumber_whole (s : Bool) (m : Nat) : toNumber ⟨s, m, 0⟩ = Number.ofRatio s m 1 := by
  by_cases hzero : m = 0
  · subst hzero
    rfl
  · have hhigh : ¬(400 : Int) < 0 := by omega
    have hlow : ¬(0 : Int) < -(400 + (m.log2 : Int)) := by omega
    rw [toNumber]
    simp only [hzero, hhigh, hlow, if_false, neg_zero]
    rw [Number.scale_of_nonpos le_rfl, Number.scale_of_nonpos le_rfl]

/-- A literal whose integer is safe stands for the number that equals it. -/
theorem Denotes.value?_toNumber {d : Decimal} (h : Denotes cs n)
    (hsmall : n.natAbs ≤ Number.greatestSafe) (hd : Decimal.read? cs = some d) :
    d.toNumber.value? = some (n : ℚ) := by
  obtain ⟨s, hread, hvalue⟩ := h.read?
  obtain rfl := Option.some_inj.mp (hread.symm.trans hd)
  have hbound : Number.greatestSafe < 2 ^ 53 := by decide
  rw [toNumber_whole, Number.value?_ofRatio_of_lt (by omega), hvalue]

/-- A literal whose integer is not safe stands for no safe integer. -/
theorem Denotes.not_isSafeInteger {d : Decimal} (h : Denotes cs n)
    (hlarge : Number.greatestSafe < n.natAbs) (hd : Decimal.read? cs = some d) :
    ¬d.toNumber.isSafeInteger := by
  obtain ⟨s, hread, -⟩ := h.read?
  obtain rfl := Option.some_inj.mp (hread.symm.trans hd)
  have hbound : 2 ^ 53 = Number.greatestSafe + 1 := by decide
  rw [toNumber_whole]
  exact Number.not_isSafeInteger_ofRatio (by omega)

end Amqp.Decimal
