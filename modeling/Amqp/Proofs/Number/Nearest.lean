import Amqp.Proofs.Number.Rounding
import Mathlib.Tactic.Linarith

/-!
# The number nearest to a quotient

Which number a magnitude is rounded to, said without the way it is computed: it is one of 53 bits
that is not farther away than any other, and of two that are equally near the one with the even
mantissa. There is exactly one such number, and it is the one that `ofRatio` gives.
-/

namespace Amqp.Number

/-- The magnitude of a mantissa and an exponent. -/
def magnitude (m : Nat) (e : Int) : ℚ := m * 2 ^ e

/-- The one form of a magnitude: a mantissa of 53 bits, or of fewer at the least exponent. -/
structure Form (m : Nat) (e : Int) : Prop where
  bits : m < 2 ^ 53
  least : leastExponent ≤ e
  full : 2 ^ 52 ≤ m ∨ e = leastExponent

/-- The form that is nearest to a magnitude, as if there were no greatest exponent. -/
structure Nearest (q : ℚ) (m : Nat) (e : Int) : Prop where
  form : Form m e
  near : ∀ n f, Form n f → |q - magnitude m e| ≤ |q - magnitude n f|
  /-- If another one is as near, this one is even. -/
  even : ∀ n f, Form n f → |q - magnitude n f| = |q - magnitude m e| →
    magnitude n f ≠ magnitude m e → m % 2 = 0

/-- The number with a sign that a magnitude is rounded to: beyond the greatest exponent it is
infinite. -/
def Rounds (negative : Bool) (q : ℚ) (x : Number) : Prop :=
  ∃ m e, Nearest q m e ∧ x = bounded negative m e

variable {q : ℚ} {m n d : Nat} {e f : Int} {s : Bool} {x y : Number}

/-! ## Forms -/

theorem form_zero : Form 0 leastExponent := ⟨by positivity, le_rfl, .inr rfl⟩

theorem magnitude_zero (e : Int) : magnitude 0 e = 0 := by
  rw [magnitude, Nat.cast_zero, zero_mul]

theorem magnitude_lt_iff : magnitude m e < magnitude n e ↔ m < n := by
  have hunit : (0 : ℚ) < 2 ^ e := by positivity
  rw [magnitude, magnitude, mul_lt_mul_iff_left₀ hunit, Nat.cast_lt]

theorem magnitude_le_iff : magnitude m e ≤ magnitude n e ↔ m ≤ n := by
  rw [← not_lt, magnitude_lt_iff, not_lt]

theorem magnitude_add (m k : Nat) (e : Int) : magnitude (m * 2 ^ k) e = magnitude m (e + k) := by
  rw [magnitude, magnitude, zpow_add₀ two_ne_zero, zpow_natCast]
  push_cast
  ring

theorem magnitude_two_pow (k : Nat) (e : Int) : magnitude (2 ^ k) e = 2 ^ (e + k) := by
  rw [← one_mul (2 ^ k), magnitude_add, magnitude, Nat.cast_one, one_mul]

/-- A form with a smaller exponent lies below every full mantissa. -/
theorem Form.lt_full (h : Form n f) (hlt : f < e) : magnitude n f < magnitude (2 ^ 52) e := by
  obtain ⟨k, rfl⟩ : ∃ k : Nat, e = f + (k + 1 : Nat) := ⟨(e - f - 1).toNat, by omega⟩
  rw [← magnitude_add, magnitude_lt_iff]
  calc n < 2 ^ 53 := h.bits
    _ = 2 ^ 52 * 2 ^ 1 := by norm_num
    _ ≤ 2 ^ 52 * 2 ^ (k + 1) := by gcongr <;> omega

/-- A form is on the grid of an exponent, or below its full mantissas. -/
theorem Form.on_grid (h : Form n f) (e : Int) :
    (∃ k, magnitude n f = magnitude k e) ∨
      leastExponent < e ∧ magnitude n f < magnitude (2 ^ 52) e := by
  by_cases hle : e ≤ f
  · obtain ⟨k, rfl⟩ : ∃ k : Nat, f = e + k := ⟨(f - e).toNat, by omega⟩
    exact .inl ⟨n * 2 ^ k, (magnitude_add n k e).symm⟩
  · exact .inr ⟨lt_of_le_of_lt h.least (by omega), h.lt_full (by omega)⟩

/-- Equal magnitudes have equal forms. -/
theorem Form.eq_of_magnitude (h : Form m e) (h' : Form n f)
    (heq : magnitude m e = magnitude n f) : m = n ∧ e = f := by
  have hapart {m n : Nat} {e f : Int} (h : Form m e) (h' : Form n f)
      (heq : magnitude m e = magnitude n f) : ¬e < f := by
    intro hlt
    have hfull : 2 ^ 52 ≤ n := h'.full.resolve_right (lt_of_le_of_lt h.least hlt).ne'
    exact absurd (heq ▸ h.lt_full hlt) (not_lt.mpr (magnitude_le_iff.mpr hfull))
  obtain rfl : e = f := le_antisymm (not_lt.mp (hapart h' h heq.symm)) (not_lt.mp (hapart h h' heq))
  exact ⟨le_antisymm (magnitude_le_iff.mp heq.le) (magnitude_le_iff.mp heq.ge), rfl⟩

/-- Between a form and the one with the next mantissa there are no others. -/
theorem Form.next_le (h : Form m e) (h' : Form n f) (hlt : magnitude m e < magnitude n f) :
    magnitude (m + 1) e ≤ magnitude n f := by
  obtain ⟨k, heq⟩ | ⟨habove, hbelow⟩ := h'.on_grid e
  · rw [heq] at hlt ⊢
    exact magnitude_le_iff.mpr (magnitude_lt_iff.mp hlt)
  · have hfull : 2 ^ 52 ≤ m := h.full.resolve_right habove.ne'
    exact absurd (hlt.trans hbelow) (not_lt.mpr (magnitude_le_iff.mpr hfull))

/-! ## One nearest form -/

/-- Of two nearest forms, none is below the other one. -/
theorem Nearest.magnitude_le (h : Nearest q m e) (h' : Nearest q n f) :
    magnitude n f ≤ magnitude m e := by
  by_contra habove
  have hlt : magnitude m e < magnitude n f := not_le.mp habove
  have hfar : |q - magnitude m e| = |q - magnitude n f| :=
    le_antisymm (h.near n f h'.form) (h'.near m e h.form)
  have heven : m % 2 = 0 := h.even n f h'.form hfar.symm hlt.ne'
  have heven' : n % 2 = 0 := h'.even m e h.form hfar hlt.ne
  have hbits := h.form.bits
  -- The mantissa is even, so the next one is odd, has 53 bits, and is not that of the other form.
  have hnext : Form (m + 1) e := ⟨by omega, h.form.least, h.form.full.imp_left (by omega)⟩
  have hfront : magnitude m e < magnitude (m + 1) e := magnitude_lt_iff.mpr (Nat.lt_succ_self m)
  have hback : magnitude (m + 1) e < magnitude n f := by
    refine lt_of_le_of_ne (h.form.next_le h'.form hlt) fun heq => ?_
    have := (hnext.eq_of_magnitude h'.form heq).1
    omega
  -- It stands between the two, and so it is nearer.
  have hmiddle : q - magnitude m e = -(q - magnitude n f) :=
    (abs_eq_abs.mp hfar).resolve_left fun heq => hlt.ne (by linarith)
  have hnearer : |q - magnitude (m + 1) e| < |q - magnitude m e| := by
    rw [abs_of_pos (by linarith : 0 < q - magnitude m e), abs_lt]
    constructor <;> linarith
  exact absurd (h.near (m + 1) e hnext) (not_le.mpr hnearer)

/-- Only one form is nearest. -/
theorem Nearest.unique (h : Nearest q m e) (h' : Nearest q n f) : m = n ∧ e = f :=
  h.form.eq_of_magnitude h'.form (le_antisymm (h'.magnitude_le h) (h.magnitude_le h'))

theorem Rounds.unique (h : Rounds s q x) (h' : Rounds s q y) : x = y := by
  obtain ⟨m, e, hnearest, rfl⟩ := h
  obtain ⟨n, f, hnearest', rfl⟩ := h'
  obtain ⟨rfl, rfl⟩ := hnearest.unique hnearest'
  rfl

/-! ## Bounds -/

/-- What is nearer than something below is not below it. -/
theorem le_of_near {a b : ℚ} (hnear : |q - a| ≤ |q - b|) (hle : b ≤ q) : b ≤ a := by
  by_contra hbelow
  rw [abs_of_nonneg (by linarith), abs_of_nonneg (by linarith)] at hnear
  linarith

/-- What is nearer than something above is not above it. -/
theorem ge_of_near {a b : ℚ} (hnear : |q - a| ≤ |q - b|) (hge : q ≤ b) : a ≤ b := by
  by_contra habove
  rw [abs_of_nonpos (by linarith), abs_of_nonpos (by linarith)] at hnear
  linarith

/-- What is beyond all finite numbers is rounded to the infinite one. -/
theorem Nearest.bounded_eq (h : Nearest q m e) (hlarge : 2 ^ 1024 ≤ q) (s : Bool) :
    bounded s m e = infinite s := by
  have hform : Form (2 ^ 52) (greatestExponent + 1) := ⟨by norm_num, by decide, .inl le_rfl⟩
  have hvalue : magnitude (2 ^ 52) (greatestExponent + 1) = 2 ^ 1024 :=
    (magnitude_two_pow 52 _).trans (zpow_natCast 2 1024)
  refine if_pos ?_
  by_contra hlow
  have hbelow : magnitude m e < magnitude (2 ^ 52) (greatestExponent + 1) :=
    h.form.lt_full (by omega)
  exact absurd (le_of_near (h.near _ _ hform) (hvalue ▸ hlarge)) (not_le.mpr hbelow)

/-- What is less than half of the least number is rounded to zero. -/
theorem Nearest.of_small (hnonneg : 0 ≤ q) (hsmall : 2 * q < 2 ^ leastExponent) :
    Nearest q 0 leastExponent := by
  have hfar {n : Nat} {f : Int} (hform : Form n f) (hpos : 0 < n) : q < |q - magnitude n f| := by
    have hleast : 2 ^ leastExponent ≤ magnitude n f := by
      calc (2 : ℚ) ^ leastExponent ≤ 2 ^ f := zpow_le_zpow_right₀ one_le_two hform.least
        _ ≤ magnitude n f := le_mul_of_one_le_left (by positivity) (by exact_mod_cast hpos)
    rw [lt_abs]
    exact .inr (by linarith)
  refine ⟨form_zero, fun n f hform => ?_, fun _ _ _ _ _ => rfl⟩
  rw [magnitude_zero, sub_zero, abs_of_nonneg hnonneg]
  obtain rfl | hpos := n.eq_zero_or_pos
  · rw [magnitude_zero, sub_zero, abs_of_nonneg hnonneg]
  · exact (hfar hform hpos).le

/-! ## The rounding of quotients -/

theorem scale_pos {b : Nat} (hb : 0 < b) (hn : 0 < n) (e : Int) : 0 < scale b n e :=
  Nat.mul_pos hn (Nat.pow_pos hb)

/-- Scaling one of two naturals, whichever it is, scales their quotient. -/
theorem scale_div_scale {b : Nat} (hb : 0 < b) (n d : Nat) (e : Int) :
    (scale b n e : ℚ) / scale b d (-e) = n * (b : ℚ) ^ e / d := by
  have hne : (b : ℚ) ≠ 0 := by positivity
  obtain ⟨k, rfl | rfl⟩ := e.eq_nat_or_neg
  · rw [scale_natCast, scale_of_nonpos (by omega), zpow_natCast]
    push_cast
    rfl
  · rw [neg_neg, scale_natCast, scale_of_nonpos (by omega), zpow_neg, zpow_natCast]
    push_cast
    field_simp

/-- A quotient in units of a power of two. -/
theorem scale_quotient (n d : Nat) (e : Int) :
    (scale 2 n (-e) : ℚ) / scale 2 d e = n / d / 2 ^ e := by
  have hscaled := scale_div_scale two_pos n d (-e)
  rw [neg_neg] at hscaled
  rw [hscaled, zpow_neg, Nat.cast_ofNat]
  ring

theorem scale_le_scale_iff (hd : 0 < d) (k : Int) :
    scale 2 d k ≤ scale 2 n (-k) ↔ (2 : ℚ) ^ k ≤ n / d := by
  have hpos : (0 : ℚ) < scale 2 d k := by exact_mod_cast scale_pos two_pos hd k
  have hunit : (0 : ℚ) < 2 ^ k := by positivity
  rw [← Nat.cast_le (α := ℚ), ← one_le_div hpos, scale_quotient, one_le_div hunit]

/-- The quotient lies between two powers of two. -/
theorem floorLog2_spec (hn : 0 < n) (hd : 0 < d) :
    (2 : ℚ) ^ floorLog2 n d ≤ n / d ∧ (n : ℚ) / d < 2 ^ (floorLog2 n d + 1) := by
  have hpos : (0 : ℚ) < d := by exact_mod_cast hd
  have hbounds {a : Nat} (ha : 0 < a) :
      (2 : ℚ) ^ (a.log2 : Int) ≤ a ∧ (a : ℚ) < 2 ^ ((a.log2 : Int) + 1) := by
    rw [← Nat.cast_succ, zpow_natCast, zpow_natCast]
    exact ⟨by exact_mod_cast Nat.log2_self_le ha.ne', by exact_mod_cast Nat.lt_log2_self⟩
  have hbelow : (2 : ℚ) ^ ((n.log2 : Int) - d.log2 - 1) ≤ n / d := by
    rw [le_div_iff₀ hpos]
    calc (2 : ℚ) ^ ((n.log2 : Int) - d.log2 - 1) * d
        ≤ 2 ^ ((n.log2 : Int) - d.log2 - 1) * 2 ^ ((d.log2 : Int) + 1) := by
          gcongr
          exact (hbounds hd).2.le
      _ = 2 ^ (n.log2 : Int) := by rw [← zpow_add₀ two_ne_zero]; congr 1; ring
      _ ≤ n := (hbounds hn).1
  have habove : (n : ℚ) / d < 2 ^ ((n.log2 : Int) - d.log2 + 1) := by
    rw [div_lt_iff₀ hpos]
    calc (n : ℚ) < 2 ^ ((n.log2 : Int) + 1) := (hbounds hn).2
      _ = 2 ^ ((n.log2 : Int) - d.log2 + 1) * 2 ^ (d.log2 : Int) := by
          rw [← zpow_add₀ two_ne_zero]; congr 1; ring
      _ ≤ 2 ^ ((n.log2 : Int) - d.log2 + 1) * d := by
          gcongr
          exact (hbounds hd).1
  rw [floorLog2]
  split
  · rename_i hle
    exact ⟨(scale_le_scale_iff hd _).mp hle, habove⟩
  · rename_i hlt
    rw [sub_add_cancel]
    exact ⟨hbelow, not_le.mp fun hle => hlt ((scale_le_scale_iff hd _).mpr hle)⟩

/-- The rounded quotient is at most one half away, and even if it is one half away. -/
theorem roundQuotient_spec (n : Nat) (hd : 0 < d) :
    |(n : ℚ) / d - roundQuotient n d| ≤ 1 / 2 ∧
      (|(n : ℚ) / d - roundQuotient n d| = 1 / 2 → roundQuotient n d % 2 = 0) := by
  have hpos : (0 : ℚ) < d := by exact_mod_cast hd
  obtain ⟨t, ht⟩ : ∃ t : ℚ, t = (n % d : Nat) / d := ⟨_, rfl⟩
  have hquotient : (n : ℚ) / d = (n / d : Nat) + t := by
    rw [ht, eq_comm, ← mul_right_cancel_iff_of_pos hpos, add_mul, div_mul_cancel₀ _ hpos.ne',
      div_mul_cancel₀ _ hpos.ne', mul_comm]
    exact_mod_cast Nat.div_add_mod n d
  have hnonneg : 0 ≤ t := by rw [ht]; positivity
  have hlt_half : 2 * (n % d) < d ↔ t < 1 / 2 := by
    rw [ht, div_lt_iff₀ hpos, ← Nat.cast_lt (α := ℚ)]
    push_cast
    constructor <;> intro h <;> linarith
  have hhalfLt : d < 2 * (n % d) ↔ 1 / 2 < t := by
    rw [ht, lt_div_iff₀ hpos, ← Nat.cast_lt (α := ℚ)]
    push_cast
    constructor <;> intro h <;> linarith
  have hlt_one : t < 1 := by
    rw [ht, div_lt_one hpos]
    exact_mod_cast Nat.mod_lt n hd
  rw [hquotient, roundQuotient]
  split
  · rename_i hlow
    have hlow := hlt_half.mp hlow
    rw [add_sub_cancel_left, abs_of_nonneg hnonneg]
    exact ⟨hlow.le, fun hhalf => absurd hhalf hlow.ne⟩
  · rename_i hlow
    split
    · rename_i hhigh
      have hhigh := hhalfLt.mp hhigh
      have hdistance : ((n / d : Nat) : ℚ) + t - (n / d + 1 : Nat) = t - 1 := by push_cast; ring
      rw [hdistance, abs_of_neg (by linarith)]
      exact ⟨by linarith, fun hhalf => absurd hhalf (by linarith)⟩
    · rename_i hhigh
      have hhalf : t = 1 / 2 :=
        le_antisymm (not_lt.mp (mt hhalfLt.mpr hhigh)) (not_lt.mp (mt hlt_half.mpr hlow))
      refine ⟨?_, fun _ => by omega⟩
      obtain heven | hodd := Nat.mod_two_eq_zero_or_one (n / d)
      · rw [heven, add_zero, add_sub_cancel_left, hhalf, abs_of_pos (by norm_num)]
      · have hdistance : ((n / d : Nat) : ℚ) + t - (n / d + n / d % 2 : Nat) = -(1 / 2) := by
          rw [hodd, hhalf]
          push_cast
          ring
        rw [hdistance, abs_neg, abs_of_pos (by norm_num)]

/-- Other naturals are at least one half away. -/
theorem half_le_of_ne {r : ℚ} {k : Nat} (hhalf : |r - m| ≤ 1 / 2) (hne : k ≠ m) :
    1 / 2 ≤ |r - k| := by
  have hone : (1 : ℚ) ≤ |(m : ℚ) - k| := by
    exact_mod_cast Int.one_le_abs (sub_ne_zero.mpr (Int.ofNat_inj.ne.mpr hne.symm))
  have htriangle := abs_sub_le (m : ℚ) r k
  rw [abs_sub_comm (m : ℚ) r] at htriangle
  linarith

/-- What is nearest on the grid of the exponent that a magnitude has is nearest to it. -/
theorem nearest_of_grid (hbinade : e = leastExponent ∨ magnitude (2 ^ 52) e ≤ q)
    (hnear : ∀ k, |q - magnitude m e| ≤ |q - magnitude k e|)
    (heven : ∀ k, |q - magnitude k e| = |q - magnitude m e| → k ≠ m → m % 2 = 0)
    (hform : Form n f) (hsame : magnitude n f = magnitude m e) (hparity : m % 2 = 0 → n % 2 = 0) :
    Nearest q n f := by
  -- What is not on the grid is below the magnitude, and farther away than the full mantissa.
  have hfarther {k : Nat} {g : Int} (habove : leastExponent < e)
      (hbelow : magnitude k g < magnitude (2 ^ 52) e) :
      |q - magnitude m e| < |q - magnitude k g| := by
    have hfull : magnitude (2 ^ 52) e ≤ q := hbinade.resolve_left habove.ne'
    have hclosest := hnear (2 ^ 52)
    rw [abs_of_nonneg (by linarith : 0 ≤ q - magnitude (2 ^ 52) e)] at hclosest
    rw [abs_of_pos (by linarith : 0 < q - magnitude k g)]
    linarith
  refine ⟨hform, fun k g hother => ?_, fun k g hother heq hne => hparity ?_⟩ <;> rw [hsame] at *
  · obtain ⟨j, hgrid⟩ | ⟨habove, hbelow⟩ := hother.on_grid e
    · rw [hgrid]
      exact hnear j
    · exact (hfarther habove hbelow).le
  · obtain ⟨j, hgrid⟩ | ⟨habove, hbelow⟩ := hother.on_grid e
    · rw [hgrid] at heq hne
      exact heven j heq fun h => hne (h ▸ rfl)
    · exact absurd heq (hfarther habove hbelow).ne'

/-- Rounding a quotient to a mantissa is rounding it to the nearest on the grid. -/
theorem grid_roundQuotient (n : Nat) (hd : 0 < d) (e : Int) (k : Nat) :
    let m := roundQuotient (scale 2 n (-e)) (scale 2 d e)
    |(n / d : ℚ) - magnitude m e| ≤ |(n / d : ℚ) - magnitude k e| ∧
      (|(n / d : ℚ) - magnitude k e| = |(n / d : ℚ) - magnitude m e| → k ≠ m → m % 2 = 0) := by
  intro m
  have hunit : (0 : ℚ) < 2 ^ e := by positivity
  have hscaled (k : Nat) : |(n / d : ℚ) - magnitude k e| =
      |(scale 2 n (-e) : ℚ) / scale 2 d e - k| * 2 ^ e := by
    rw [scale_quotient, ← abs_of_pos hunit, ← abs_mul, abs_of_pos hunit, sub_mul,
      div_mul_cancel₀ _ hunit.ne', magnitude]
  obtain ⟨hhalf, htie⟩ := roundQuotient_spec (scale 2 n (-e)) (scale_pos two_pos hd e)
  rw [hscaled, hscaled]
  constructor
  · refine mul_le_mul_of_nonneg_right ?_ hunit.le
    obtain rfl | hne := eq_or_ne k m
    · exact le_rfl
    · exact hhalf.trans (half_le_of_ne hhalf hne)
  · intro heq hne
    have heq := mul_right_cancel₀ hunit.ne' heq
    exact htie (le_antisymm hhalf (heq ▸ half_le_of_ne hhalf hne))

/-- What `ofRatio` gives is the number nearest to the quotient. -/
theorem exists_nearest_ofRatio (s : Bool) (n : Nat) (hd : 0 < d) :
    ∃ m e, Nearest (n / d) m e ∧ ofRatio s n d = bounded s m e := by
  obtain rfl | hn := n.eq_zero_or_pos
  · refine ⟨0, leastExponent, ?_, ?_⟩
    · rw [Nat.cast_zero, zero_div]
      exact .of_small le_rfl (by rw [mul_zero]; positivity)
    · rw [ofRatio, if_pos rfl, bounded_of_le (by decide)]
  · obtain ⟨hlow, hhigh⟩ := floorLog2_spec hn hd
    obtain ⟨e, he⟩ : ∃ e, e = max (floorLog2 n d - 52) leastExponent := ⟨_, rfl⟩
    obtain ⟨m, hm⟩ : ∃ m, m = roundQuotient (scale 2 n (-e)) (scale 2 d e) := ⟨_, rfl⟩
    have hgrid := grid_roundQuotient n hd e
    rw [← hm] at hgrid
    have hleast : leastExponent ≤ e := he ▸ le_max_right _ _
    have hbinade : e = leastExponent ∨ magnitude (2 ^ 52) e ≤ n / d := by
      obtain heq | heq := max_choice (floorLog2 n d - 52) leastExponent
      · right
        rw [magnitude_two_pow, he, heq]
        exact (congrArg _ (sub_add_cancel _ _)).trans_le hlow
      · exact .inl (he.trans heq)
    have hbits : m ≤ 2 ^ 53 := by
      refine magnitude_le_iff.mp (ge_of_near (hgrid _).1 (hhigh.le.trans ?_))
      rw [magnitude_two_pow]
      exact zpow_le_zpow_right₀ one_le_two (by omega)
    have hfull : 2 ^ 52 ≤ m ∨ e = leastExponent :=
      hbinade.symm.imp_left fun hle => magnitude_le_iff.mp (le_of_near (hgrid _).1 hle)
    rw [ofRatio, if_neg hn.ne']
    simp only [← he, ← hm]
    split
    · rename_i hcarry
      have hcarry : m = 2 ^ 52 * 2 ^ 1 := hcarry
      refine ⟨2 ^ 52, e + 1, nearest_of_grid hbinade (fun k => (hgrid k).1) (fun k => (hgrid k).2)
        ⟨by norm_num, by omega, .inl le_rfl⟩ ?_ fun _ => by norm_num, rfl⟩
      rw [hcarry, magnitude_add]
      rfl
    · rename_i hno
      have hno : m ≠ 2 ^ 53 := hno
      exact ⟨m, e, nearest_of_grid hbinade (fun k => (hgrid k).1) (fun k => (hgrid k).2)
        ⟨by omega, hleast, hfull⟩ rfl id, rfl⟩

theorem rounds_ofRatio (s : Bool) (n : Nat) (hd : 0 < d) :
    Rounds s (n / d) (ofRatio s n d) := exists_nearest_ofRatio s n hd

end Amqp.Number
