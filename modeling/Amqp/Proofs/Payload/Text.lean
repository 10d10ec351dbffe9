import Amqp.Channel.Request
import Amqp.Proofs.Text.Utf8

/-!
# Payloads as texts

A text that is published comes back from its bytes, a byte order mark included. Bytes that are not
well formed are no text, and then they are nothing else that is read off a text.
-/

namespace Amqp.Payload

variable {p : Payload} {s : String} {e : DecodeError}

/-- A payload is the text whose bytes it holds. -/
theorem asText_eq_ok_iff : p.asText = .ok s ↔ p = Utf8.encode s := by
  rw [← Utf8.decode?_eq_some_iff, asText]
  cases Utf8.decode? p with
  | none => simp
  | some t => simp

/-- Bytes that are not well formed have one way to fail. -/
theorem asText_of_not_wellFormed (h : ¬Utf8.WellFormed p) : p.asText = .error .notUtf8 := by
  rw [asText, Utf8.decode?_eq_none_iff.mpr h]

/-- Exactly the well-formed payloads are texts. -/
theorem exists_asText_iff : (∃ s, p.asText = .ok s) ↔ Utf8.WellFormed p := by
  simp only [asText_eq_ok_iff, Utf8.wellFormed_iff]

/-- Whatever is read off the text of a payload is read off a text. -/
theorem exists_asText_of_bind {α : Type} {f : String → Except DecodeError α} {a : α}
    (h : p.asText >>= f = .ok a) : ∃ s, p.asText = .ok s ∧ f s = .ok a := by
  cases htext : p.asText with
  | ok s => exact ⟨s, rfl, by rwa [htext] at h⟩
  | error e =>
    rw [htext] at h
    cases h

/-- Every view but that of the bytes starts from the text. -/
theorem view_of_asText_error (h : p.asText = .error e) {w : View} (hw : w ≠ .bytes) :
    p.view w = .error e := by
  cases w with
  | bytes => exact absurd rfl hw
  | text => rw [view, h]; rfl
  | int => rw [view, asInt, h]; rfl
  | float => rw [view, asFloat, h]; rfl
  | json => rw [view, asJson, h]; rfl
  | xml => rw [view, asXml, h]; rfl

/-- **Texts.** The bytes that are sent for a text read as it; a payload reads as a text exactly if
it is well formed, and the bytes of that text are the payload; and a payload that is not well formed
fails as a text, in whatever view it is asked for. -/
theorem text_roundTrip (exchange key properties : Value) (s : String) (p : Payload) :
    (∃ sent, (Channel.Request.publish exchange key (Content.text s).payload properties).primitive? =
        some (.basicPublish exchange key (properties.ifDefined (.table [])) (.bytes sent)) ∧
      asText sent = .ok s) ∧
    ((∃ t, p.asText = .ok t) ↔ Utf8.WellFormed p) ∧
    (∀ t, p.asText = .ok t → Utf8.encode t = p) ∧
    (¬Utf8.WellFormed p → ∀ w, w ≠ .bytes → ∃ e, p.view w = .error e ∧ e.target = .text) := by
  refine ⟨⟨_, rfl, asText_eq_ok_iff.mpr rfl⟩, exists_asText_iff, fun t ht => ?_, fun h w hw => ?_⟩
  · exact (asText_eq_ok_iff.mp ht).symm
  · exact ⟨.notUtf8, view_of_asText_error (asText_of_not_wellFormed h) hw, rfl⟩

/-- A lead byte that no continuation follows is no text, and no integer either. -/
theorem text_of_loneLead :
    (Content.bytes [0xc3, 0x28]).payload.asText = .error .notUtf8 ∧
      ∃ e, (Content.bytes [0xc3, 0x28]).payload.view .int = .error e ∧ e.target = .text := by
  have hbad : ¬Utf8.WellFormed [0xc3, 0x28] := Utf8.decode?_eq_none_iff.mp (by cbv)
  have h := text_roundTrip .undefined .undefined .undefined "" [0xc3, 0x28]
  exact ⟨asText_of_not_wellFormed hbad, h.2.2.2 hbad .int (by decide)⟩

end Amqp.Payload
