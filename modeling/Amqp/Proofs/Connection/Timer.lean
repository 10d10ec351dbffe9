import Amqp.Connection.Timer
import Amqp.Proofs.Number.Nearest
import Amqp.Proofs.Number.Order

/-!
# How long timers run

Whatever number a timer is set for, it runs for a whole number of milliseconds within its range, and
for exactly what it is set for where that is such a number.
-/

namespace Amqp

namespace Number

variable {x y : Number} {k n : Nat}

theorem position?_dropZeroSign (x : Number) : x.dropZeroSign.position? = x.position? := by
  cases x with
  | nan | infinite => rfl
  | finite s m e =>
    cases m with
    | zero => cases s <;> simp [dropZeroSign, position?, signed]
    | succ m => rfl

/-- A number that is at or below another one stands at or below it. -/
theorem exists_position_of_le (h : x.le y) :
    ∃ a b, x.position? = some a ∧ y.position? = some b ∧ a ≤ b := by
  simp only [le, Bool.or_eq_true, Bool.and_eq_true, beq_iff_eq, bne_iff_ne] at h
  rcases h with hlt | ⟨hsame, hne⟩
  · obtain ⟨a, b, ha, hb, hab⟩ := lt_iff.mp hlt
    exact ⟨a, b, ha, hb, hab.le⟩
  · obtain ⟨a, ha⟩ := Option.ne_none_iff_exists'.mp (mt position?_eq_none_iff.mp hne)
    refine ⟨a, a, ha, ?_, le_rfl⟩
    rw [← position?_dropZeroSign, ← hsame, position?_dropZeroSign, ha]

/-- A natural below `2 ^ 53` stands at its place. -/
theorem position?_ofNat (h : n < 2 ^ 53) :
    (ofNat n).position? = some (((n : ℚ) : WithTop ℚ) : WithBot (WithTop ℚ)) :=
  position?_of_value? (value?_ofRatio_of_lt (s := false) h)

theorem ofNat_le_ofNat (hle : k ≤ n) (hn : n < 2 ^ 53) : (ofNat k).le (ofNat n) := by
  have hk := position?_ofNat (hle.trans_lt hn)
  obtain rfl | hlt := hle.eq_or_lt
  · have hne : ofNat k ≠ nan := fun h => by rw [h] at hk; cases hk
    simp [le, hne]
  · have hbelow : (ofNat k).lt (ofNat n) :=
      lt_iff.mpr ⟨_, _, hk, position?_ofNat hn, by exact_mod_cast hlt⟩
    simp [le, hbelow]

/-- Truncation rounds the magnitude down to a natural. -/
theorem truncate_finite (s : Bool) (m : Nat) (e : Int) :
    ∃ n : Nat, (finite s m e).truncate = ofRatio s n 1 ∧ (n : ℚ) ≤ m * 2 ^ e ∧
      (m * 2 ^ e : ℚ) < n + 1 := by
  have hpos : 0 < scale 2 1 (-e) := scale_pos two_pos one_pos _
  have hquotient : (scale 2 m e : ℚ) / scale 2 1 (-e) = m * 2 ^ e := by
    simpa using scale_div_scale two_pos m 1 e
  refine ⟨scale 2 m e / scale 2 1 (-e), rfl, ?_, ?_⟩
  · rw [← hquotient, le_div_iff₀ (by exact_mod_cast hpos)]
    exact_mod_cast Nat.div_mul_le_self _ _
  · rw [← hquotient, div_lt_iff₀' (by exact_mod_cast hpos)]
    exact_mod_cast Nat.lt_mul_div_succ _ hpos

end Number

namespace Timer

open Number

variable {x : Number} {n : Nat}

/-- What is in the range of timers is a magnitude without a sign, which lies in that range. -/
theorem finite_of_range (hlow : (Number.ofNat 1).le x) (hhigh : x.le (.ofNat longestDelay)) :
    ∃ m e, x = .finite false m e ∧ (1 : ℚ) ≤ m * 2 ^ e ∧ (m * 2 ^ e : ℚ) ≤ longestDelay := by
  obtain ⟨a, b, ha, hb, hab⟩ := exists_position_of_le hlow
  obtain ⟨b', c, hb', hc, hbc⟩ := exists_position_of_le hhigh
  obtain rfl := Option.some_inj.mp (hb.symm.trans hb')
  obtain rfl := Option.some_inj.mp (ha.symm.trans (position?_ofNat (by decide)))
  obtain rfl := Option.some_inj.mp (hc.symm.trans (position?_ofNat (by decide)))
  cases x with
  | nan => cases hb
  | infinite s =>
    obtain rfl := Option.some_inj.mp hb
    cases s <;> simp at hab hbc
  | finite s m e =>
    obtain rfl := Option.some_inj.mp hb
    have hab : ((1 : Nat) : ℚ) ≤ signed s m * 2 ^ e := by exact_mod_cast hab
    have hbc : (signed s m * 2 ^ e : ℚ) ≤ longestDelay := by exact_mod_cast hbc
    cases s with
    | false => exact ⟨m, e, rfl, by simpa [signed] using hab, by simpa [signed] using hbc⟩
    | true =>
      have hmagnitude : (0 : ℚ) ≤ m * 2 ^ e := by positivity
      simp only [signed, if_true, Int.cast_neg, Int.cast_natCast, neg_mul, Nat.cast_one] at hab
      linarith

/-- A timer runs for at least one millisecond and at most the longest delay, whatever it is set
for. -/
theorem exists_delay_eq (x : Number) :
    ∃ n, 1 ≤ n ∧ n ≤ longestDelay ∧ delay x = .ofNat n := by
  unfold delay
  split
  · rename_i hrange
    obtain ⟨hlow, hhigh⟩ := Bool.and_eq_true_iff.mp hrange
    obtain ⟨m, e, rfl, hleast, hgreatest⟩ := finite_of_range hlow hhigh
    obtain ⟨n, htruncate, hbelow, habove⟩ := truncate_finite false m e
    refine ⟨n, ?_, ?_, htruncate⟩
    · have hpos : (0 : ℚ) < n := by linarith
      exact_mod_cast hpos
    · exact_mod_cast hbelow.trans hgreatest
  · exact ⟨1, le_rfl, by decide, rfl⟩

/-- A delay in whole milliseconds within the range is kept. -/
theorem delay_ofNat (hlow : 1 ≤ n) (hhigh : n ≤ longestDelay) : delay (.ofNat n) = .ofNat n := by
  have hsmall : n < 2 ^ 53 := hhigh.trans_lt (by decide)
  have hleast := ofNat_le_ofNat hlow hsmall
  have hgreatest := ofNat_le_ofNat hhigh (by decide)
  obtain ⟨m, e, hn, -, -⟩ := finite_of_range hleast hgreatest
  have hvalue := value?_ofRatio_of_lt (s := false) hsmall
  rw [← ofNat, hn, value?, Option.some_inj] at hvalue
  have hvalue : (m * 2 ^ e : ℚ) = n := by simpa [signed] using hvalue
  obtain ⟨k, htruncate, hbelow, habove⟩ := truncate_finite false m e
  rw [hvalue] at hbelow habove
  have hk : k = n := Nat.le_antisymm (by exact_mod_cast hbelow)
    (Nat.lt_succ_iff.mp (by exact_mod_cast habove))
  rw [delay, hleast, hgreatest, Bool.and_self, if_pos rfl, hn, htruncate, hk, ← ofNat, ← hn]

end Timer

end Amqp
