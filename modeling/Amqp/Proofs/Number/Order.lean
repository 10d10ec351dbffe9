import Amqp.Proofs.Number.Rounding
import Mathlib.Order.WithBot
import Mathlib.Tactic.Linarith

/-!
# The order of the numbers

Comparing two numbers is comparing the rationals that they stand for, with the two infinities at the
ends of the line. What is no number stands nowhere on it.
-/

namespace Amqp.Number

variable {s t : Bool} {m n : Nat} {e f : Int} {x y : Number}

/-- Where a number stands on the line of the rationals with its two ends. -/
def position? : Number → Option (WithBot (WithTop ℚ))
  | nan => none
  | infinite negative => some (if negative then ⊥ else ⊤)
  | finite negative m e => some ((signed negative m * 2 ^ e : ℚ) : WithTop ℚ)

theorem position?_eq_none_iff : x.position? = none ↔ x = nan := by
  cases x <;> simp [position?]

/-- A number with a value stands at its value. -/
theorem position?_of_value? {q : ℚ} (h : x.value? = some q) :
    x.position? = some ((q : WithTop ℚ) : WithBot (WithTop ℚ)) := by
  cases x with
  | nan | infinite => simp [value?] at h
  | finite s m e =>
    obtain rfl := Option.some_inj.mp h
    rfl

/-- Mantissas scaled to a common exponent are in the order of the values. -/
theorem scale_lt_scale_iff : signed s (scale 2 m (e - f)) < signed t (scale 2 n (f - e)) ↔
    (signed s m * 2 ^ e : ℚ) < signed t n * 2 ^ f := by
  have hcommon {a b : Int} (g : Int) : a < b ↔ (a * 2 ^ g : ℚ) < b * 2 ^ g := by
    rw [mul_lt_mul_iff_left₀ (by positivity), Int.cast_lt]
  have hshift (a : Int) (g : Int) (k : Nat) :
      ((a * 2 ^ k : Int) * 2 ^ g : ℚ) = a * 2 ^ (g + k) := by
    rw [zpow_add₀ two_ne_zero, zpow_natCast]
    push_cast
    ring
  obtain hle | hle := le_total e f
  · obtain ⟨k, rfl⟩ : ∃ k : Nat, f = e + k := ⟨(f - e).toNat, by omega⟩
    have hgap : e + k - e = k := by omega
    rw [scale_of_nonpos (by omega), hgap, scale_natCast, signed_mul, hcommon e, ← hshift]
    push_cast
    rfl
  · obtain ⟨k, rfl⟩ : ∃ k : Nat, e = f + k := ⟨(e - f).toNat, by omega⟩
    have hgap : f + k - f = k := by omega
    rw [hgap, scale_natCast, scale_of_nonpos (by omega), signed_mul, hcommon f, ← hshift]
    push_cast
    rfl

/-- One number is below another one if it stands below it. -/
theorem lt_iff : x.lt y ↔ ∃ a b, x.position? = some a ∧ y.position? = some b ∧ a < b := by
  have hbot (q : ℚ) : ⊥ < ((q : WithTop ℚ) : WithBot (WithTop ℚ)) := WithBot.bot_lt_coe _
  have htop (q : ℚ) : ((q : WithTop ℚ) : WithBot (WithTop ℚ)) < ⊤ :=
    WithBot.coe_lt_coe.mpr (WithTop.coe_lt_top q)
  cases x with
  | nan => simp [lt, position?]
  | infinite s =>
    cases y with
    | nan => simp [lt, position?]
    | infinite t => cases s <;> cases t <;> simp [lt, position?]
    | finite t n f =>
      simp only [position?]
      generalize (signed t n * 2 ^ f : ℚ) = q
      cases s <;> simp [lt, hbot]
  | finite s m e =>
    cases y with
    | nan => simp [lt, position?]
    | infinite t =>
      simp only [position?]
      generalize (signed s m * 2 ^ e : ℚ) = q
      cases t <;> simp [lt, htop]
    | finite t n f =>
      rw [lt, decide_eq_true_eq, scale_lt_scale_iff]
      simp only [position?]
      generalize (signed s m * 2 ^ e : ℚ) = q, (signed t n * 2 ^ f : ℚ) = r
      simp

/-- Zero stands in the middle. -/
theorem position?_zero : (ofNat 0).position? = some 0 := by
  simp [ofNat, ofRatio, position?, signed]

theorem lt_zero_iff : x.lt (ofNat 0) ↔ ∃ a, x.position? = some a ∧ a < 0 := by
  simp [lt_iff, position?_zero]

theorem zero_lt_iff : (ofNat 0).lt x ↔ ∃ a, x.position? = some a ∧ 0 < a := by
  simp [lt_iff, position?_zero]

/-- A number that is not above zero stands at zero or below it. -/
theorem zero_lt_eq_false_iff (hnumber : x ≠ nan) :
    (ofNat 0).lt x = false ↔ ∃ a, x.position? = some a ∧ a ≤ 0 := by
  obtain ⟨a, hposition⟩ := Option.ne_none_iff_exists'.mp (mt position?_eq_none_iff.mp hnumber)
  rw [← Bool.not_eq_true, zero_lt_iff, hposition]
  simp

/-- An integer is below zero as a number if it is so as an integer. -/
theorem lt_zero_of_value? {k : Int} (h : x.value? = some (k : ℚ)) : x.lt (ofNat 0) ↔ k < 0 := by
  rw [lt_zero_iff, position?_of_value? h]
  simp

theorem zero_lt_of_value? {k : Int} (h : x.value? = some (k : ℚ)) : (ofNat 0).lt x ↔ 0 < k := by
  rw [zero_lt_iff, position?_of_value? h]
  simp

end Amqp.Number
