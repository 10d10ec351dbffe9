import Amqp.Proofs.Text.Utf8
import Amqp.Url.Percent
import Mathlib.Data.List.Basic

/-!
# Percent-encoded text

Encoding leaves a text alone that has nothing to encode, and nothing to encode is what it always
leaves. Decoding undoes the encoding of bytes.
-/

namespace Amqp.Url

variable {set : Char → Bool} {cs : List Char} {c : Char} {b : UInt8}

/-- A text without characters of the set. -/
def Free (set : Char → Bool) (cs : List Char) : Prop := ∀ c ∈ cs, set c = false

/-- The characters that encoding brings in. -/
def escapes : List Char := "%0123456789ABCDEF".toList

theorem free_nil : Free set [] := fun _ hc => by cases hc

theorem free_of_all (h : cs.all (fun c => !set c)) : Free set cs :=
  fun c hc => (Bool.not_eq_true' _).mp (List.all_eq_true.mp h c hc)

theorem hexDigit_mem_escapes : ∀ n < 16, hexDigit n ∈ escapes := by decide

theorem hexValue?_hexDigit : ∀ n < 16, hexValue? (hexDigit n) = some n := by decide

theorem mem_escapes_of_mem_percentByte (h : c ∈ percentByte b) : c ∈ escapes := by
  have hsize : b.toNat < 256 := b.toNat_lt
  simp only [percentByte, List.mem_cons, List.not_mem_nil, or_false] at h
  obtain rfl | rfl | rfl := h
  · decide
  · exact hexDigit_mem_escapes _ (by omega)
  · exact hexDigit_mem_escapes _ (by omega)

/-- What is written for a byte reads as the byte. -/
theorem percentDecode_percentByte (b : UInt8) (rest : List Char) :
    percentDecode (percentByte b ++ rest) = b :: percentDecode rest := by
  have hsize : b.toNat < 256 := b.toNat_lt
  have hhigh := hexValue?_hexDigit (b.toNat / 16) (by omega)
  have hlow := hexValue?_hexDigit (b.toNat % 16) (by omega)
  have hdigits : b.toNat / 16 * 16 + b.toNat % 16 = b.toNat := Nat.div_add_mod' _ _
  simp only [percentByte, List.cons_append, List.nil_append, percentDecode, hhigh, hlow, hdigits]
  congr 1
  exact Utf8.toUInt8_eq rfl

/-- What is written for bytes reads as the bytes. -/
theorem percentDecode_flatMap_percentByte (bs : List UInt8) (rest : List Char) :
    percentDecode (bs.flatMap percentByte ++ rest) = bs ++ percentDecode rest := by
  induction bs with
  | nil => rfl
  | cons b bs ih =>
    rw [List.flatMap_cons, List.append_assoc, percentDecode_percentByte, ih, List.cons_append]

theorem percentDecode_cons_of_ne (h : c ≠ '%') (rest : List Char) :
    percentDecode (c :: rest) = Utf8.encodeChar c ++ percentDecode rest := by
  rw [percentDecode]
  exact fun _ _ _ heq _ => h heq

/-- A text without percent signs stands for its own bytes. -/
theorem percentDecode_of_notMem (h : '%' ∉ cs) : percentDecode cs = cs.flatMap Utf8.encodeChar := by
  induction cs with
  | nil => rfl
  | cons c cs ih =>
    rw [List.mem_cons, not_or] at h
    rw [percentDecode_cons_of_ne (Ne.symm h.1), ih h.2, List.flatMap_cons]

/-- There is something written for every character. -/
theorem flatMap_percentByte_ne_nil (c : Char) : (Utf8.encodeChar c).flatMap percentByte ≠ [] := by
  cases hbytes : Utf8.encodeChar c with
  | nil => exact absurd hbytes (Utf8.encodeChar_ne_nil c)
  | cons b bs => simp [percentByte]

theorem percentEncode_cons (set : Char → Bool) (c : Char) (cs : List Char) :
    percentEncode set (c :: cs) =
      (if set c then (Utf8.encodeChar c).flatMap percentByte else [c]) ++ percentEncode set cs :=
  List.flatMap_cons

/-- A text with nothing to encode stays. -/
theorem percentEncode_of_free (h : Free set cs) : percentEncode set cs = cs := by
  induction cs with
  | nil => rfl
  | cons c cs ih =>
    rw [percentEncode_cons, h c List.mem_cons_self, ih fun d hd => h d (List.mem_cons_of_mem _ hd)]
    rfl

theorem percentEncode_eq_nil_iff : percentEncode set cs = [] ↔ cs = [] := by
  cases cs with
  | nil => simp [percentEncode]
  | cons c cs =>
    simp only [percentEncode_cons, List.append_eq_nil_iff, reduceCtorEq, iff_false, not_and]
    intro hfirst
    split at hfirst
    · exact absurd hfirst (flatMap_percentByte_ne_nil c)
    · cases hfirst

/-- An encoded text holds characters of the text that are not encoded, and escapes. -/
theorem mem_percentEncode (h : c ∈ percentEncode set cs) :
    c ∈ cs ∧ set c = false ∨ c ∈ escapes := by
  obtain ⟨d, hd, hc⟩ := List.mem_flatMap.mp h
  split at hc
  · obtain ⟨b, -, hc⟩ := List.mem_flatMap.mp hc
    exact .inr (mem_escapes_of_mem_percentByte hc)
  · rename_i hkeep
    obtain rfl := List.mem_singleton.mp hc
    exact .inl ⟨hd, Bool.eq_false_iff.mpr hkeep⟩

/-- There is nothing left to encode in an encoded text. -/
theorem free_percentEncode (hspared : Free set escapes) (cs : List Char) :
    Free set (percentEncode set cs) := by
  intro c hc
  obtain ⟨-, hkeep⟩ | hescape := mem_percentEncode hc
  · exact hkeep
  · exact hspared c hescape

/-- An encoded text begins as the text does, or with an escape. -/
theorem head?_percentEncode (h : (percentEncode set cs).head? = some c) :
    cs.head? = some c ∨ c = '%' := by
  cases cs with
  | nil => cases h
  | cons d cs =>
    rw [percentEncode_cons] at h
    split at h
    · right
      cases hbytes : Utf8.encodeChar d with
      | nil => exact absurd hbytes (Utf8.encodeChar_ne_nil d)
      | cons b bs =>
        simp only [hbytes, List.flatMap_cons, percentByte, List.cons_append, List.head?_cons,
          Option.some_inj] at h
        exact h.symm
    · exact .inl h

/-- An encoded text ends as the text does, or with an escape. -/
theorem getLast?_percentEncode (h : (percentEncode set cs).getLast? = some c) :
    cs.getLast? = some c ∨ c ∈ escapes := by
  obtain rfl | ⟨front, d, rfl⟩ := List.eq_nil_or_concat' cs
  · cases h
  · rw [percentEncode, List.flatMap_append, List.flatMap_singleton] at h
    split at h
    · rw [List.getLast?_append_of_ne_nil _ (flatMap_percentByte_ne_nil d)] at h
      obtain ⟨b, -, hc⟩ := List.mem_flatMap.mp (List.mem_of_getLast? h)
      exact .inr (mem_escapes_of_mem_percentByte hc)
    · rw [List.getLast?_concat] at h ⊢
      exact .inl h

/-! ## The sets -/

theorem not_any_iff : ¬cs.any set ↔ Free set cs := by
  simp only [Free, List.any_eq_true, not_exists, not_and, Bool.not_eq_true]

theorem free_controlSet_escapes : Free controlSet escapes := free_of_all rfl

theorem free_fragmentSet_escapes : Free fragmentSet escapes := free_of_all rfl

theorem free_querySet_escapes : Free querySet escapes := free_of_all rfl

theorem free_specialQuerySet_escapes : Free specialQuerySet escapes := free_of_all rfl

theorem free_pathSet_escapes : Free pathSet escapes := free_of_all rfl

theorem free_userinfoSet_escapes : Free userinfoSet escapes := free_of_all rfl

end Amqp.Url
