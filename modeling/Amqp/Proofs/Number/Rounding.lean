import Amqp.Number.Binary64
import Mathlib.Algebra.Order.Field.Power
import Mathlib.Algebra.Order.Field.Rat
import Mathlib.Tactic.FieldSimp
import Mathlib.Tactic.Positivity
import Mathlib.Tactic.Ring

/-!
# Integers among the binary64 numbers

The rational that a finite number stands for, and what rounding does to a natural: below `2 ^ 53` it
is kept exactly, and from there on no rounding ever comes back below.
-/

namespace Amqp.Number

variable {s : Bool} {n m : Nat} {e : Int} {x : Number}

/-- The rational that a finite number stands for. -/
def value? : Number → Option ℚ
  | finite negative m e => some (signed negative m * 2 ^ e)
  | _ => none

theorem scale_natCast (b n k : Nat) : scale b n k = n * b ^ k := rfl

theorem scale_of_nonpos {b : Nat} (h : e ≤ 0) : scale b n e = n := by
  rw [scale, Int.toNat_of_nonpos h]
  exact Nat.mul_one n

theorem natAbs_signed : (signed s m).natAbs = m := by
  cases s with
  | false => rfl
  | true => exact (Int.natAbs_neg _).trans (Int.natAbs_natCast m)

theorem signed_mul (s : Bool) (m k : Nat) : signed s (m * k) = signed s m * k := by
  cases s with
  | false => exact Int.natCast_mul m k
  | true => simp [signed]

theorem toInt?_natCast (s : Bool) (m k : Nat) :
    (finite s m k).toInt? = some (signed s (m * 2 ^ k)) := by
  have hnone : scale 2 1 (-(k : Int)) = 1 := scale_of_nonpos (by omega)
  rw [toInt?, hnone, Nat.mod_one, if_pos rfl, Nat.div_one, scale_natCast]

theorem toInt?_neg_natCast (s : Bool) (m k : Nat) :
    (finite s m (-(k : Int))).toInt? =
      if m % 2 ^ k = 0 then some (signed s (m / 2 ^ k)) else none := by
  rw [toInt?, neg_neg, scale_natCast, one_mul, scale_of_nonpos (by omega)]

/-- The program's own test for an integer finds exactly the integer that the number equals. -/
theorem toInt?_eq_some_iff {n : Int} : x.toInt? = some n ↔ x.value? = some (n : ℚ) := by
  cases x with
  | nan | infinite => simp [toInt?, value?]
  | finite s m e =>
    rw [value?, Option.some_inj]
    obtain ⟨k, rfl | rfl⟩ := e.eq_nat_or_neg
    · rw [toInt?_natCast, Option.some_inj, signed_mul, zpow_natCast]
      exact_mod_cast Iff.rfl
    · have hpos : (2 : ℚ) ^ k ≠ 0 := by positivity
      have hscaled : (signed s m * 2 ^ (-(k : Int)) : ℚ) = n ↔ signed s m = n * (2 ^ k : Nat) := by
        rw [zpow_neg, zpow_natCast, mul_inv_eq_iff_eq_mul₀ hpos]
        exact_mod_cast Iff.rfl
      rw [hscaled, toInt?_neg_natCast]
      constructor
      · intro h
        obtain ⟨hwhole, h⟩ := Option.ite_none_right_eq_some.mp h
        rw [← Option.some_inj.mp h, ← signed_mul,
          Nat.div_mul_cancel (Nat.dvd_of_mod_eq_zero hwhole)]
      · intro h
        have hsize : m = n.natAbs * 2 ^ k := by
          rw [← natAbs_signed (s := s) (m := m), h, Int.natAbs_mul, Int.natAbs_natCast]
        rw [hsize, Nat.mul_mod_left, if_pos rfl, Nat.mul_div_cancel _ (by positivity)]
        rw [hsize, signed_mul] at h
        exact congrArg some (Int.eq_of_mul_eq_mul_right (by positivity) h)

theorem isInteger_iff : x.isInteger ↔ ∃ n : Int, x.value? = some (n : ℚ) := by
  rw [isInteger, Option.isSome_iff_exists]
  exact exists_congr fun n => toInt?_eq_some_iff

theorem isSafeInteger_iff :
    x.isSafeInteger ↔ ∃ n : Int, x.value? = some (n : ℚ) ∧ n.natAbs ≤ greatestSafe := by
  simp only [← toInt?_eq_some_iff, isSafeInteger]
  cases x.toInt? with
  | none => simp
  | some n => simp

/-- The power of two below a natural. -/
theorem floorLog2_one (h : n ≠ 0) : floorLog2 n 1 = n.log2 := by
  have hlow : scale 2 1 (n.log2 : Int) ≤ scale 2 n (-(n.log2 : Int)) := by
    rw [scale_natCast, one_mul, scale_of_nonpos (by omega)]
    exact Nat.log2_self_le h
  have hzero : Nat.log2 1 = 0 := rfl
  rw [floorLog2, hzero]
  simp only [Nat.cast_zero, sub_zero, if_pos hlow]

/-- Rounding a quotient that is whole changes nothing. -/
theorem roundQuotient_one (n : Nat) : roundQuotient n 1 = n := by
  simp [roundQuotient, Nat.mod_one]

theorem div_le_roundQuotient (n m : Nat) : n / m ≤ roundQuotient n m := by
  simp only [roundQuotient]
  split
  · exact le_rfl
  · split <;> omega

/-- The exponent that the number nearest to a natural gets. -/
theorem exponent_natural (h : n ≠ 0) :
    max (floorLog2 n 1 - 52) leastExponent = (n.log2 : Int) - 52 := by
  rw [floorLog2_one h, leastExponent]
  omega

theorem bounded_of_le (h : e ≤ greatestExponent) : bounded s m e = finite s m e :=
  if_neg (Int.not_lt.mpr h)

/-- A natural below `2 ^ 53` is kept. -/
theorem value?_ofRatio_of_lt (h : n < 2 ^ 53) :
    (ofRatio s n 1).value? = some (signed s n : ℚ) := by
  by_cases hzero : n = 0
  · subst hzero
    simp [ofRatio, value?, signed]
  · have hlog : n.log2 < 53 := (Nat.log2_lt hzero).mpr h
    obtain ⟨k, hk⟩ : ∃ k : Nat, (n.log2 : Int) - 52 = -k := ⟨52 - n.log2, by omega⟩
    have hsize : n * 2 ^ k < 2 ^ 53 :=
      calc n * 2 ^ k < 2 ^ (n.log2 + 1) * 2 ^ k :=
            Nat.mul_lt_mul_of_pos_right Nat.lt_log2_self (by positivity)
        _ = 2 ^ 53 := by rw [← pow_add]; congr 1; omega
    have hone : scale 2 1 (-(k : Int)) = 1 := scale_of_nonpos (by omega)
    have hsmall : n * 2 ^ k ≠ Nat.pow 2 53 := hsize.ne
    rw [ofRatio, if_neg hzero]
    simp only [exponent_natural hzero, hk, neg_neg, hone, roundQuotient_one, scale_natCast]
    rw [if_neg hsmall, bounded_of_le (by rw [greatestExponent]; omega), value?, signed_mul]
    push_cast
    rw [zpow_neg, zpow_natCast, mul_assoc, mul_inv_cancel₀ (by positivity), mul_one]

/-- A number with a mantissa of 53 bits and an exponent above zero stands for no small integer. -/
theorem not_isSafeInteger_bounded (hm : 2 ^ 52 ≤ m) (he : 0 < e) :
    ¬(bounded s m e).isSafeInteger := by
  obtain ⟨k, rfl⟩ : ∃ k : Nat, e = (k + 1 : Nat) := ⟨e.toNat - 1, by omega⟩
  rw [bounded]
  split
  · simp [isSafeInteger, toInt?]
  · have hlarge : 2 ^ 52 * 2 ≤ m * 2 ^ (k + 1) :=
      Nat.mul_le_mul hm (Nat.le_self_pow (Nat.succ_ne_zero k) 2)
    have hsafe : greatestSafe < 2 ^ 52 * 2 := by decide
    rw [isSafeInteger, toInt?_natCast]
    simp only [natAbs_signed, decide_eq_true_eq]
    omega

/-- A natural from `2 ^ 53` on is rounded to a number that is not below it. -/
theorem not_isSafeInteger_ofRatio (h : 2 ^ 53 ≤ n) : ¬(ofRatio s n 1).isSafeInteger := by
  have hzero : n ≠ 0 := by omega
  have hlog : 53 ≤ n.log2 := (Nat.le_log2 hzero).mpr h
  obtain ⟨k, hk⟩ : ∃ k : Nat, (n.log2 : Int) - 52 = k := ⟨n.log2 - 52, by omega⟩
  have hmantissa : 2 ^ 52 ≤ roundQuotient n (2 ^ k) := by
    refine le_trans ?_ (div_le_roundQuotient n (2 ^ k))
    rw [Nat.le_div_iff_mul_le (by positivity), ← pow_add]
    have hbits : 52 + k = n.log2 := by omega
    rw [hbits]
    exact Nat.log2_self_le hzero
  rw [ofRatio, if_neg hzero]
  simp only [exponent_natural hzero, hk]
  rw [scale_of_nonpos (by omega), scale_natCast, one_mul]
  split
  · exact not_isSafeInteger_bounded le_rfl (by omega)
  · exact not_isSafeInteger_bounded hmantissa (by omega)

theorem isFinite_iff : x.isFinite ↔ ∃ q, x.value? = some q := by
  cases x with
  | nan | infinite => simp [isFinite, value?]
  | finite => simp [isFinite, value?]

theorem isFinite_of_isSafeInteger (h : x.isSafeInteger) : x.isFinite := by
  obtain ⟨n, hvalue, -⟩ := isSafeInteger_iff.mp h
  exact isFinite_iff.mpr ⟨_, hvalue⟩

end Amqp.Number
