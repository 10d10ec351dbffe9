import Mathlib.Data.Nat.Basic

/-!
# Letters and digits of ASCII

Letters and digits by their code points, and what a small letter is put for.
-/

namespace Amqp.Text

variable {c : Char}

theorem isDigit_iff : c.isDigit ↔ 48 ≤ c.toNat ∧ c.toNat ≤ 57 := Char.isDigit_iff_toNat

theorem isUpper_iff : c.isUpper ↔ 65 ≤ c.toNat ∧ c.toNat ≤ 90 := by
  change decide (c.val ≥ 'A'.val ∧ c.val ≤ 'Z'.val) = true ↔ _
  rw [decide_eq_true_eq, ge_iff_le, UInt32.le_iff_toNat_le, UInt32.le_iff_toNat_le]
  rfl

theorem isLower_iff : c.isLower ↔ 97 ≤ c.toNat ∧ c.toNat ≤ 122 := by
  change (decide (c.val ≥ 'a'.val) && decide (c.val ≤ 'z'.val)) = true ↔ _
  rw [Bool.and_eq_true, decide_eq_true_eq, decide_eq_true_eq, ge_iff_le, UInt32.le_iff_toNat_le,
    UInt32.le_iff_toNat_le]
  rfl

theorem isAlpha_iff :
    c.isAlpha ↔ 65 ≤ c.toNat ∧ c.toNat ≤ 90 ∨ 97 ≤ c.toNat ∧ c.toNat ≤ 122 := by
  change (c.isUpper || c.isLower) = true ↔ _
  rw [Bool.or_eq_true, isUpper_iff, isLower_iff]

theorem isAlphanum_iff : c.isAlphanum ↔
    65 ≤ c.toNat ∧ c.toNat ≤ 90 ∨ 97 ≤ c.toNat ∧ c.toNat ≤ 122 ∨ 48 ≤ c.toNat ∧ c.toNat ≤ 57 := by
  rw [Char.isAlphanum, Bool.or_eq_true, isAlpha_iff, isDigit_iff, or_assoc]

/-- Only capital letters have another small form. -/
theorem toNat_toLower (c : Char) :
    c.toLower.toNat = if 65 ≤ c.toNat ∧ c.toNat ≤ 90 then c.toNat + 32 else c.toNat := by
  have hcapital : c.val ≥ 'A'.val ∧ c.val ≤ 'Z'.val ↔ 65 ≤ c.toNat ∧ c.toNat ≤ 90 := by
    simp [UInt32.le_iff_toNat_le]
  by_cases h : c.val ≥ 'A'.val ∧ c.val ≤ 'Z'.val
  · have hrange := hcapital.mp h
    have hmoved : c.toLower.val = c.val + 32 := congrArg Char.val (dif_pos h)
    rw [if_pos hrange, ← Char.toNat_val, hmoved]
    change (c.val.toNat + 32) % 4294967296 = c.toNat + 32
    rw [Char.toNat_val]
    omega
  · have hsame : c.toLower = c := dif_neg h
    rw [hsame, if_neg fun hrange => h (hcapital.mpr hrange)]

theorem toLower_of_not_isUpper (h : ¬c.isUpper) : c.toLower = c := by
  rw [← Char.toNat_inj, toNat_toLower, if_neg fun hrange => h (isUpper_iff.mpr hrange)]

theorem toLower_toLower (c : Char) : c.toLower.toLower = c.toLower := by
  rw [← Char.toNat_inj, toNat_toLower, toNat_toLower]
  split
  · rw [if_neg (by omega)]
  · rfl

theorem isAlpha_toLower (h : c.isAlpha) : c.toLower.isAlpha := by
  have hrange := isAlpha_iff.mp h
  rw [isAlpha_iff, toNat_toLower]
  split <;> omega

theorem isAlphanum_toLower (h : c.isAlphanum) : c.toLower.isAlphanum := by
  have hrange := isAlphanum_iff.mp h
  rw [isAlphanum_iff, toNat_toLower]
  split <;> omega

end Amqp.Text
