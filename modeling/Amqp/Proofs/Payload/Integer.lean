import Amqp.Proofs.Number.Literal
import Amqp.Proofs.Payload.Text
import Amqp.Proofs.Text.Blank

/-!
# Payloads as integers

A payload reads as an integer exactly if a sign and digits stand between blanks and denote an
integer of magnitude below `2 ^ 53`, and then it reads as that integer.
-/

namespace Amqp.Payload

open Decimal (Denotes)

variable {p : Payload} {s : String} {literal : List Char} {n : Int} {v : Number}

/-- The bytes of a literal between blanks. -/
def Holds (p : Payload) (literal : List Char) : Prop :=
  ∃ before after, (∀ c ∈ before, Text.isBlank c) ∧ (∀ c ∈ after, Text.isBlank c) ∧
    p = Utf8.encode (String.ofList (before ++ literal ++ after))

/-- A payload that is a text holds what trimming leaves of it. -/
theorem holds_of_asText (h : p.asText = .ok s) : p.Holds (Text.trimChars s.toList) := by
  obtain ⟨before, after, hbefore, hafter, hsplit⟩ := Text.eq_append_trimChars s.toList
  refine ⟨before, after, hbefore, hafter, ?_⟩
  rw [← hsplit, String.ofList_toList]
  exact asText_eq_ok_iff.mp h

/-- Trimming finds a literal that has no blanks. -/
theorem Holds.exists_asText (h : p.Holds literal) (hsolid : ∀ c ∈ literal, ¬Text.isBlank c) :
    ∃ s, p.asText = .ok s ∧ Text.trimChars s.toList = literal := by
  obtain ⟨before, after, hbefore, hafter, rfl⟩ := h
  refine ⟨_, asText_eq_ok_iff.mpr rfl, ?_⟩
  rw [String.toList_ofList]
  exact Text.trimChars_append hbefore hsolid hafter

theorem asInt_of_asText (h : p.asText = .ok s) :
    p.asInt = integerOf (Text.trimChars s.toList) := by
  rw [asInt, h]
  rfl

theorem Holds.asInt (h : p.Holds literal) (hsolid : ∀ c ∈ literal, ¬Text.isBlank c) :
    p.asInt = integerOf literal := by
  obtain ⟨s, htext, htrimmed⟩ := h.exists_asText hsolid
  rw [asInt_of_asText htext, htrimmed]

theorem not_isBlank_of_denotes (h : Denotes literal n) : ∀ c ∈ literal, ¬Text.isBlank c := by
  have hdigits {ds : List Char} (h : Decimal.IsDigits ds) : ∀ c ∈ ds, ¬Text.isBlank c :=
    fun c hc => Text.not_isBlank_of_isDigit (h.2 c hc)
  cases h with
  | bare h => exact hdigits h
  | plus h => exact List.forall_mem_cons.mpr ⟨by decide, hdigits h⟩
  | minus h => exact List.forall_mem_cons.mpr ⟨by decide, hdigits h⟩

/-- A literal of a safe integer reads as its number. -/
theorem integerOf_of_safe {d : Decimal} (h : Denotes literal n)
    (hsmall : n.natAbs ≤ Number.greatestSafe) (hd : Decimal.read? literal = some d) :
    integerOf literal = .ok d.toNumber := by
  rw [integerOf, if_pos (Decimal.isIntegerLiteral_iff.mpr ⟨n, h⟩), hd]
  exact if_pos (Number.isSafeInteger_iff.mpr ⟨n, h.value?_toNumber hsmall hd, hsmall⟩)

/-- A literal of any other integer is out of range. -/
theorem integerOf_of_not_safe (h : Denotes literal n) (hlarge : Number.greatestSafe < n.natAbs) :
    integerOf literal = .error (.integerOutOfRange (String.ofList literal)) := by
  obtain ⟨s, hread, -⟩ := h.read?
  rw [integerOf, if_pos (Decimal.isIntegerLiteral_iff.mpr ⟨n, h⟩), hread]
  exact if_neg (h.not_isSafeInteger hlarge hread)

/-- Only literals of safe integers read as integers. -/
theorem exists_denotes_of_integerOf (h : integerOf literal = .ok v) :
    ∃ n, Denotes literal n ∧ n.natAbs ≤ Number.greatestSafe := by
  by_cases hdigits : Decimal.isIntegerLiteral literal
  · obtain ⟨n, hdenotes⟩ := Decimal.isIntegerLiteral_iff.mp hdigits
    refine ⟨n, hdenotes, Nat.le_of_not_lt fun hlarge => ?_⟩
    rw [integerOf_of_not_safe hdenotes hlarge] at h
    contradiction
  · rw [integerOf, if_neg hdigits] at h
    contradiction

/-- **Integers.** A payload reads as an integer exactly if it is a text of a sign and digits between
blanks that denotes an integer of magnitude below `2 ^ 53`; what it then reads as equals that
integer; and digits that denote a greater one are out of range. -/
theorem asInt_exact (p : Payload) :
    ((∃ v, p.asInt = .ok v) ↔
      ∃ literal n, p.Holds literal ∧ Denotes literal n ∧ n.natAbs ≤ 2 ^ 53 - 1) ∧
    ∀ literal n, p.Holds literal → Denotes literal n →
      (∀ v, p.asInt = .ok v → v.value? = some (n : ℚ)) ∧
      (2 ^ 53 - 1 < n.natAbs → p.asInt = .error (.integerOutOfRange (String.ofList literal))) := by
  have hsafe : Number.greatestSafe = 2 ^ 53 - 1 := rfl
  rw [← hsafe]
  refine ⟨⟨?_, ?_⟩, fun literal n hholds hdenotes => ⟨fun v h => ?_, fun hlarge => ?_⟩⟩
  · rintro ⟨v, h⟩
    obtain ⟨s, htext, h⟩ := exists_asText_of_bind h
    obtain ⟨n, hdenotes, hsmall⟩ := exists_denotes_of_integerOf h
    exact ⟨_, n, holds_of_asText htext, hdenotes, hsmall⟩
  · rintro ⟨literal, n, hholds, hdenotes, hsmall⟩
    obtain ⟨s, hread, -⟩ := hdenotes.read?
    exact ⟨_, (hholds.asInt (not_isBlank_of_denotes hdenotes)).trans
      (integerOf_of_safe hdenotes hsmall hread)⟩
  · rw [hholds.asInt (not_isBlank_of_denotes hdenotes)] at h
    obtain ⟨k, hdenotes', hsmall⟩ := exists_denotes_of_integerOf h
    obtain rfl := hdenotes.unique hdenotes'
    obtain ⟨s, hread, -⟩ := hdenotes.read?
    rw [integerOf_of_safe hdenotes hsmall hread] at h
    rw [← Except.ok.inj h, hdenotes.value?_toNumber hsmall hread]
  · rw [hholds.asInt (not_isBlank_of_denotes hdenotes), integerOf_of_not_safe hdenotes hlarge]

/-- Zeros in front and blanks do not count, and `2 ^ 53 + 1` is not rounded back into the range. -/
theorem asInt_nearLimit :
    (∃ v, (Content.text "\u00a0-009007199254740991\n").payload.asInt = .ok v) ∧
      (Content.text "9007199254740993").payload.asInt =
        .error (.integerOutOfRange "9007199254740993") := by
  constructor
  · have hdigits : Decimal.IsDigits "009007199254740991".toList := by simp [Decimal.IsDigits]
    have hvalue : (-(Decimal.naturalOf "009007199254740991".toList) : Int).natAbs ≤ 2 ^ 53 - 1 := by
      decide
    have hholds : (Content.text "\u00a0-009007199254740991\n").payload.Holds
        ('-' :: "009007199254740991".toList) :=
      ⟨['\u00a0'], ['\n'], List.all_eq_true.mp rfl, List.all_eq_true.mp rfl,
        congrArg Utf8.encode (by decide)⟩
    exact (asInt_exact _).1.mpr ⟨_, _, hholds, .minus hdigits, hvalue⟩
  · have hdigits : Decimal.IsDigits "9007199254740993".toList := by simp [Decimal.IsDigits]
    have hvalue : 2 ^ 53 - 1 < (Decimal.naturalOf "9007199254740993".toList : Int).natAbs := by
      decide
    have hholds : (Content.text "9007199254740993").payload.Holds "9007199254740993".toList :=
      ⟨[], [], List.all_eq_true.mp rfl, List.all_eq_true.mp rfl, congrArg Utf8.encode (by decide)⟩
    exact ((asInt_exact _).2 _ _ hholds (.bare hdigits)).2 hvalue

end Amqp.Payload
