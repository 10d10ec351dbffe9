import Amqp.Proofs.Json.Number
import Amqp.Proofs.Payload.Integer

/-!
# The numeric views of a payload

A payload that reads as a number in one way reads as the same number in every wider one: integers
are numbers, finite numbers of JSON documents are numbers, and JSON documents that are integer
literals are integers.
-/

namespace Amqp.Payload

open Decimal (Denotes)
open Json (Numeral)

variable {p : Payload} {s : String} {literal : List Char} {v : Number} {d : Decimal}

theorem asFloat_of_asText (h : p.asText = .ok s) :
    p.asFloat = numberOf (Text.trimChars s.toList) := by
  rw [asFloat, h]
  rfl

theorem Holds.asFloat (h : p.Holds literal) (hsolid : ∀ c ∈ literal, ¬Text.isBlank c) :
    p.asFloat = numberOf literal := by
  obtain ⟨s, htext, htrimmed⟩ := h.exists_asText hsolid
  rw [asFloat_of_asText htext, htrimmed]

/-- A decimal literal with a finite number reads as that number. -/
theorem numberOf_of_isFinite (h : Decimal.read? literal = some d) (hfinite : d.toNumber.isFinite) :
    numberOf literal = .ok d.toNumber := by
  rw [numberOf, h]
  exact if_pos hfinite

/-- Nothing but a finite number is read. -/
theorem isFinite_of_numberOf (h : numberOf literal = .ok v) : v.isFinite := by
  rw [numberOf] at h
  split at h
  · split at h
    · rename_i hfinite
      rwa [← Except.ok.inj h]
    · contradiction
  · contradiction

/-- What reads as an integer reads as the same number. -/
theorem numberOf_of_integerOf (h : integerOf literal = .ok v) : numberOf literal = .ok v := by
  rw [integerOf] at h
  split at h
  · split at h
    · rename_i d hread
      split at h
      · rename_i hsafe
        rw [← Except.ok.inj h]
        exact numberOf_of_isFinite hread (Number.isFinite_of_isSafeInteger hsafe)
      · contradiction
    · contradiction
  · contradiction

/-- The blanks of JSON documents are blanks. -/
theorem isBlank_of_json {c : Char} (h : Json.isBlank c) : Text.isBlank c := by
  simp only [Json.isBlank, Bool.or_eq_true, beq_iff_eq] at h
  obtain ((rfl | rfl) | rfl) | rfl := h <;> decide

/-- Number literals have no blanks. -/
theorem not_isBlank_of_mem_chars {t : Numeral} (h : t.Valid) : ∀ c ∈ t.chars, ¬Text.isBlank c := by
  intro c hc
  obtain hdigit | hmark := h.mem_chars hc
  · exact Text.not_isBlank_of_isDigit hdigit
  · have hsolid : ['-', '+', '.', 'e', 'E'].all (fun c => !Text.isBlank c) := rfl
    exact Bool.eq_false_iff.mp ((Bool.not_eq_true' _).mp (List.all_eq_true.mp hsolid c hmark))

/-- A payload that is a number as a JSON document holds a number literal, with the value that the
literal has as a decimal. -/
theorem exists_numeral_of_asJson (h : p.asJson = .ok (.number v)) :
    ∃ t : Numeral, t.Valid ∧ p.Holds t.chars ∧
      ∃ d, Decimal.read? t.chars = some d ∧ v = d.toNumber := by
  obtain ⟨s, htext, hread⟩ := exists_asText_of_bind h
  have hparsed : Json.parseChars? s.toList = some (.number v) := by
    rw [← Json.parse?]
    cases hfound : Json.parse? s with
    | none =>
      rw [hfound] at hread
      cases hread
    | some w =>
      rw [hfound] at hread
      rw [Except.ok.inj hread]
  obtain ⟨before, after, t, hvalid, hbefore, hafter, hsplit, d, hdecimal, hvalue⟩ :=
    Json.exists_numeral_of_parseChars? hparsed
  refine ⟨t, hvalid, ⟨before, after, fun c hc => isBlank_of_json (hbefore c hc),
    fun c hc => isBlank_of_json (hafter c hc), ?_⟩, d, hdecimal, hvalue⟩
  rw [← hsplit, String.ofList_toList]
  exact asText_eq_ok_iff.mp htext

/-- **The numeric views.** An integer is the same number as a float; a finite number of a JSON
document is the same number as a float; a number of a JSON document whose literal has neither
fraction nor exponent and denotes an integer of magnitude below `2 ^ 53` is the same number as an
integer; and a float is neither infinite nor no number. -/
theorem numbers_agree (p : Payload) :
    (∀ v, p.asInt = .ok v → p.asFloat = .ok v) ∧
    (∀ v, p.asJson = .ok (.number v) → v.isFinite → p.asFloat = .ok v) ∧
    (∀ v, p.asJson = .ok (.number v) → ∃ t : Numeral, t.Valid ∧ p.Holds t.chars ∧
      (t.fraction = [] → t.exponent = [] → ∃ n, Denotes t.chars n ∧
        (n.natAbs ≤ 2 ^ 53 - 1 → p.asInt = .ok v))) ∧
    (∀ v, p.asFloat = .ok v → v ≠ .nan ∧ ∀ negative, v ≠ .infinite negative) := by
  refine ⟨fun v h => ?_, fun v h hfinite => ?_, fun v h => ?_, fun v h => ?_⟩
  · obtain ⟨s, htext, h⟩ := exists_asText_of_bind h
    rw [asFloat_of_asText htext, numberOf_of_integerOf h]
  · obtain ⟨t, hvalid, hholds, d, hread, rfl⟩ := exists_numeral_of_asJson h
    rw [hholds.asFloat (not_isBlank_of_mem_chars hvalid), numberOf_of_isFinite hread hfinite]
  · obtain ⟨t, hvalid, hholds, d, hread, rfl⟩ := exists_numeral_of_asJson h
    refine ⟨t, hvalid, hholds, fun hnoFraction hnoExponent => ?_⟩
    obtain ⟨n, hdenotes⟩ := hvalid.exists_denotes hnoFraction hnoExponent
    refine ⟨n, hdenotes, fun hsmall => ?_⟩
    rw [hholds.asInt (not_isBlank_of_mem_chars hvalid), integerOf_of_safe hdenotes hsmall hread]
  · obtain ⟨s, htext, h⟩ := exists_asText_of_bind h
    have hfinite := isFinite_of_numberOf h
    refine ⟨?_, fun negative => ?_⟩
    · rintro rfl
      cases hfinite
    · rintro rfl
      cases hfinite

/-- A JSON number with an exponent is a float. -/
theorem numbers_agree_exponent :
    (Content.text "\n-12e2 ").payload.asFloat = .ok (Decimal.toNumber ⟨true, 12, 2⟩) := by
  have hdocument : (Content.text "\n-12e2 ").payload.asJson =
      .ok (.number (Decimal.toNumber ⟨true, 12, 2⟩)) := by
    have htext : (Content.text "\n-12e2 ").payload.asText = .ok "\n-12e2 " :=
      asText_eq_ok_iff.mpr rfl
    rw [asJson, htext]
    rfl
  exact (numbers_agree _).2.1 _ hdocument (by decide +kernel)

end Amqp.Payload
