import Amqp.Proofs.Number.Literal
import Amqp.Proofs.Number.Nearest

/-!
# Decimal literals

Which texts are decimal literals, said by a grammar: a sign or none, digits with at most one point
among them, and an exponent or none. The reader accepts exactly these, and the number of a literal
is the one that its magnitude is rounded to, however large or small that is.
-/

namespace Amqp.Decimal

variable {cs ds : List Char} {k : Int} {n : Nat} {d : Decimal} {negative : Bool}

/-- An exponent: nothing, or a letter and an integer. -/
inductive Exponent : List Char → Int → Prop
  | none : Exponent [] 0
  | some {mark : Char} {cs : List Char} {k : Int} :
      mark = 'e' ∨ mark = 'E' → Denotes cs k → Exponent (mark :: cs) k

/-- A literal without a sign, its digits as one natural, and the power of ten they count. -/
inductive Unsigned : List Char → Nat → Int → Prop
  | whole {ds ex : List Char} {k : Int} :
      IsDigits ds → Exponent ex k → Unsigned (ds ++ ex) (naturalOf ds) k
  /-- Digits stand before the point, behind it, or both. -/
  | point {ds fs ex : List Char} {k : Int} :
      IsDigits (ds ++ fs) → Exponent ex k →
      Unsigned (ds ++ '.' :: (fs ++ ex)) (naturalOf (ds ++ fs)) (k - fs.length)

/-- A literal and the decimal that it spells. -/
inductive Spells : List Char → Decimal → Prop
  | bare {cs : List Char} {n : Nat} {k : Int} : Unsigned cs n k → Spells cs ⟨false, n, k⟩
  | plus {cs : List Char} {n : Nat} {k : Int} : Unsigned cs n k → Spells ('+' :: cs) ⟨false, n, k⟩
  | minus {cs : List Char} {n : Nat} {k : Int} : Unsigned cs n k → Spells ('-' :: cs) ⟨true, n, k⟩

/-! ## Reading decimals -/

theorem isDigits_iff : IsDigits ds ↔ ds ≠ [] ∧ ds.all Char.isDigit = true := by
  rw [IsDigits, List.all_eq_true]

/-- An integer is a sign and digits. -/
theorem denotes_iff : Denotes cs k ↔ IsDigits (takeSign cs).2 ∧
    k = if (takeSign cs).1 then -(naturalOf (takeSign cs).2 : Int)
      else naturalOf (takeSign cs).2 := by
  constructor
  · rintro (h | h | h)
    · rw [h.takeSign]
      exact ⟨h, rfl⟩
    · exact ⟨h, rfl⟩
    · exact ⟨h, rfl⟩
  · rintro ⟨h, rfl⟩
    obtain ⟨rest, rfl, hsign⟩ | ⟨rest, rfl, hsign⟩ | hsign := takeSign_cases cs <;>
      rw [hsign] at h ⊢
    · exact .minus h
    · exact .plus h
    · exact .bare h

theorem readExponent?_eq_some_iff : readExponent? cs = some k ↔ Exponent cs k := by
  constructor
  · intro h
    rw [readExponent?.eq_def] at h
    split at h
    · rw [← Option.some_inj.mp h]
      exact .none
    · rename_i rest
      obtain ⟨hisMark, h⟩ := Option.ite_none_right_eq_some.mp h
      refine .some hisMark (denotes_iff.mpr ?_)
      generalize takeSign rest = front at h ⊢
      obtain ⟨hdigits, h⟩ := Option.ite_none_right_eq_some.mp h
      refine ⟨isDigits_iff.mpr hdigits, ?_⟩
      rw [← Option.some_inj.mp h, digitsValue_eq]
  · rintro (_ | ⟨hisMark, hdenotes⟩)
    · rfl
    · obtain ⟨hdigits, rfl⟩ := denotes_iff.mp hdenotes
      rw [readExponent?, if_pos hisMark]
      dsimp only
      rw [if_pos (isDigits_iff.mp hdigits), digitsValue_eq]

/-- An exponent does not begin with a digit or with a point. -/
theorem Exponent.head {c : Char} (h : Exponent (c :: cs) k) : c.isDigit = false ∧ c ≠ '.' := by
  cases h with
  | some hisMark _ => obtain rfl | rfl := hisMark <;> decide

/-- Digits in front of an exponent are found. -/
theorem Exponent.split (h : Exponent cs k) (hdigits : ∀ d ∈ ds, d.isDigit) :
    (ds ++ cs).takeWhile Char.isDigit = ds ∧ (ds ++ cs).dropWhile Char.isDigit = cs := by
  rw [List.takeWhile_append_of_pos hdigits, List.dropWhile_append_of_pos hdigits]
  cases cs with
  | nil => simp
  | cons c rest => simp [h.head.1]

theorem unsigned_of_readUnsigned? (h : readUnsigned? negative cs = some d) :
    ∃ n k, Unsigned cs n k ∧ d = ⟨negative, n, k⟩ := by
  have hdigits (cs : List Char) : ∀ c ∈ cs.takeWhile Char.isDigit, c.isDigit :=
    fun c hc => List.mem_takeWhile_imp hc
  rw [readUnsigned?] at h
  split at h
  · rename_i rest hsplit
    obtain ⟨hsome, h⟩ := Option.ite_none_left_eq_some.mp h
    obtain ⟨k, hexponent, rfl⟩ := Option.map_eq_some_iff.mp h
    rw [← List.append_eq_nil_iff] at hsome
    have hpoint := Unsigned.point
      ⟨hsome, fun c hc => (List.mem_append.mp hc).elim (hdigits cs c) (hdigits rest c)⟩
      (readExponent?_eq_some_iff.mp hexponent)
    rw [List.takeWhile_append_dropWhile, ← hsplit, List.takeWhile_append_dropWhile] at hpoint
    exact ⟨_, _, hpoint, by rw [ofParts, digitsValue_eq]⟩
  · obtain ⟨hsome, h⟩ := Option.ite_none_left_eq_some.mp h
    obtain ⟨k, hexponent, rfl⟩ := Option.map_eq_some_iff.mp h
    have hwhole := Unsigned.whole ⟨hsome, hdigits cs⟩ (readExponent?_eq_some_iff.mp hexponent)
    rw [List.takeWhile_append_dropWhile] at hwhole
    refine ⟨_, _, hwhole, ?_⟩
    rw [ofParts, digitsValue_eq, List.append_nil, List.length_nil, Nat.cast_zero, sub_zero]

theorem Unsigned.readUnsigned? (h : Unsigned cs n k) (negative : Bool) :
    readUnsigned? negative cs = some ⟨negative, n, k⟩ := by
  cases h with
  | @whole ds ex k hwhole hexponent =>
    obtain ⟨hfront, hback⟩ := hexponent.split hwhole.2
    have hread : (readExponent? ex).map (ofParts negative ds []) =
        some ⟨negative, naturalOf ds, k⟩ := by
      rw [readExponent?_eq_some_iff.mpr hexponent, Option.map_some, ofParts, digitsValue_eq,
        List.append_nil, List.length_nil, Nat.cast_zero, sub_zero]
    rw [Decimal.readUnsigned?, hfront, hback]
    split
    · exact absurd rfl hexponent.head.2
    · rw [if_neg hwhole.1, hread]
  | @point ds fs ex k hdigits hexponent =>
    have hfront : (ds ++ '.' :: (fs ++ ex)).takeWhile Char.isDigit = ds ∧
        (ds ++ '.' :: (fs ++ ex)).dropWhile Char.isDigit = '.' :: (fs ++ ex) := by
      have hbefore : ∀ d ∈ ds, d.isDigit := fun d hd => hdigits.2 d (List.mem_append_left _ hd)
      rw [List.takeWhile_append_of_pos hbefore, List.dropWhile_append_of_pos hbefore]
      exact ⟨List.append_nil _, rfl⟩
    obtain ⟨hback, htail⟩ := hexponent.split fun d hd => hdigits.2 d (List.mem_append_right ds hd)
    rw [Decimal.readUnsigned?, hfront.1, hfront.2]
    change (if ds = [] ∧ (fs ++ ex).takeWhile Char.isDigit = [] then none else _) = _
    rw [hback, htail, if_neg fun hnone => hdigits.1 (List.append_eq_nil_iff.mpr hnone),
      readExponent?_eq_some_iff.mpr hexponent, Option.map_some, ofParts, digitsValue_eq]

/-- A literal without a sign begins with a digit or with a point. -/
theorem Unsigned.first (h : Unsigned cs n k) :
    ∃ c rest, cs = c :: rest ∧ (c.isDigit ∨ c = '.') := by
  cases h with
  | @whole ds ex k hwhole hexponent =>
    cases ds with
    | nil => exact absurd rfl hwhole.1
    | cons d ds => exact ⟨d, ds ++ ex, rfl, .inl (hwhole.2 d List.mem_cons_self)⟩
  | @point ds fs ex k hdigits hexponent =>
    cases ds with
    | nil => exact ⟨'.', fs ++ ex, rfl, .inr rfl⟩
    | cons d ds => exact ⟨d, _, rfl, .inl (hdigits.2 d List.mem_cons_self)⟩

theorem Unsigned.takeSign (h : Unsigned cs n k) : takeSign cs = (false, cs) := by
  obtain ⟨c, rest, rfl, hfirst⟩ := h.first
  obtain ⟨rest', heq, -⟩ | ⟨rest', heq, -⟩ | hsign := takeSign_cases (c :: rest)
  · obtain ⟨rfl, -⟩ := List.cons.inj heq
    exact absurd hfirst (by decide)
  · obtain ⟨rfl, -⟩ := List.cons.inj heq
    exact absurd hfirst (by decide)
  · exact hsign

/-- The reader of decimals accepts exactly the literals. -/
theorem read?_eq_some_iff : read? cs = some d ↔ Spells cs d := by
  constructor
  · intro h
    rw [read?] at h
    obtain ⟨rest, rfl, hsign⟩ | ⟨rest, rfl, hsign⟩ | hsign := takeSign_cases cs <;> rw [hsign] at h
    all_goals obtain ⟨n, k, hunsigned, rfl⟩ := unsigned_of_readUnsigned? h
    · exact .minus hunsigned
    · exact .plus hunsigned
    · exact .bare hunsigned
  · rintro (h | h | h)
    · rw [read?, h.takeSign]
      exact h.readUnsigned? false
    · exact h.readUnsigned? false
    · exact h.readUnsigned? true

/-- A character that decimals are written with. -/
def IsWritten (c : Char) : Prop := c.isDigit ∨ c ∈ ".eE+-".toList

instance : DecidablePred IsWritten :=
  fun c => inferInstanceAs (Decidable (c.isDigit ∨ c ∈ ".eE+-".toList))

theorem IsDigits.written (h : IsDigits ds) : ∀ c ∈ ds, IsWritten c := fun c hc => .inl (h.2 c hc)

theorem Exponent.written (h : Exponent cs k) : ∀ c ∈ cs, IsWritten c := by
  cases h with
  | none => simp
  | some hisMark hdenotes =>
    refine List.forall_mem_cons.mpr ⟨.inr (by obtain rfl | rfl := hisMark <;> decide), ?_⟩
    cases hdenotes with
    | bare hdigits => exact hdigits.written
    | plus hdigits | minus hdigits =>
      exact List.forall_mem_cons.mpr ⟨.inr (by decide), hdigits.written⟩

theorem Unsigned.written (h : Unsigned cs n k) : ∀ c ∈ cs, IsWritten c := by
  cases h with
  | whole hdigits hexponent => exact List.forall_mem_append.mpr ⟨hdigits.written, hexponent.written⟩
  | point hdigits hexponent =>
    obtain ⟨hfront, hback⟩ := List.forall_mem_append.mp hdigits.written
    refine List.forall_mem_append.mpr ⟨hfront, List.forall_mem_cons.mpr ⟨.inr (by decide), ?_⟩⟩
    exact List.forall_mem_append.mpr ⟨hback, hexponent.written⟩

theorem Spells.written (h : Spells cs d) : ∀ c ∈ cs, IsWritten c := by
  cases h with
  | bare hunsigned => exact hunsigned.written
  | plus hunsigned | minus hunsigned =>
    exact List.forall_mem_cons.mpr ⟨.inr (by decide), hunsigned.written⟩

theorem Spells.ne_nil (h : Spells cs d) : cs ≠ [] := by
  cases h with
  | bare hunsigned =>
    obtain ⟨c, rest, rfl, -⟩ := hunsigned.first
    exact List.cons_ne_nil c rest
  | plus | minus => exact List.cons_ne_nil _ _

theorem mem_of_mem_takeSign {c : Char} (h : c ∈ (takeSign cs).2) : c ∈ cs := by
  obtain ⟨rest, rfl, hsign⟩ | ⟨rest, rfl, hsign⟩ | hsign := takeSign_cases cs <;> rw [hsign] at h
  · exact List.mem_cons_of_mem _ h
  · exact List.mem_cons_of_mem _ h
  · exact h

/-! ## Rounding decimals -/

/-- The magnitude of a decimal. -/
def magnitude (d : Decimal) : ℚ := d.digits * 10 ^ d.exponent

theorem magnitude_large (hsome : d.digits ≠ 0) (hlarge : 400 < d.exponent) :
    2 ^ 1024 ≤ d.magnitude := by
  have hone : (1 : ℚ) ≤ d.digits := by exact_mod_cast Nat.pos_of_ne_zero hsome
  calc (2 : ℚ) ^ 1024 ≤ 2 ^ (3 * 400) := pow_le_pow_right₀ one_le_two (by norm_num)
    _ = 8 ^ 400 := by rw [pow_mul]; norm_num
    _ ≤ 10 ^ 400 := pow_le_pow_left₀ (by norm_num) (by norm_num) 400
    _ = 10 ^ ((400 : Nat) : Int) := (zpow_natCast _ _).symm
    _ ≤ 10 ^ d.exponent := zpow_le_zpow_right₀ (by norm_num) hlarge.le
    _ ≤ d.magnitude := le_mul_of_one_le_left (by positivity) hone

theorem magnitude_small (hsmall : d.exponent < -(400 + d.digits.log2 : Int)) :
    2 * d.magnitude < 2 ^ Number.leastExponent := by
  have hdigits : (d.digits : ℚ) ≤ 10 ^ ((d.digits.log2 + 1 : Nat) : Int) := by
    rw [zpow_natCast]
    calc (d.digits : ℚ) ≤ 2 ^ (d.digits.log2 + 1) := by exact_mod_cast Nat.lt_log2_self.le
      _ ≤ 10 ^ (d.digits.log2 + 1) := pow_le_pow_left₀ (by norm_num) (by norm_num) _
  calc 2 * d.magnitude
      ≤ 2 * (10 ^ ((d.digits.log2 + 1 : Nat) : Int) *
          10 ^ (-(400 : Nat) - (d.digits.log2 + 1 : Nat) : Int)) := by
        rw [magnitude]
        gcongr
        · norm_num
        · omega
    _ = 2 * (10 ^ 400)⁻¹ := by
        rw [← zpow_add₀ (by norm_num), add_sub_cancel, zpow_neg, zpow_natCast]
    _ ≤ 2 * (8 ^ 400)⁻¹ := by
        gcongr
        norm_num
    _ = 2 * 2 ^ (-(1200 : Nat) : Int) := by
        rw [zpow_neg, zpow_natCast, show 1200 = 3 * 400 by norm_num, pow_mul]
        norm_num
    _ = 2 ^ (-1199 : Int) := by
        rw [← zpow_one_add₀ two_ne_zero]
        rfl
    _ < 2 ^ Number.leastExponent := zpow_lt_zpow_right₀ one_lt_two (by decide)

/-- The number of a decimal is the one that its magnitude is rounded to. -/
theorem rounds_toNumber (d : Decimal) : Number.Rounds d.negative d.magnitude d.toNumber := by
  have hten : 0 < 10 := by norm_num
  obtain ⟨m, e, hnearest, hratio⟩ := Number.exists_nearest_ofRatio d.negative
    (Number.scale 10 d.digits d.exponent) (Number.scale_pos hten one_pos (-d.exponent))
  have hquotient : (Number.scale 10 d.digits d.exponent / Number.scale 10 1 (-d.exponent) : ℚ) =
      d.magnitude := by
    rw [Number.scale_div_scale hten, Nat.cast_one, div_one, magnitude, Nat.cast_ofNat]
  rw [hquotient] at hnearest
  have hzero : Number.bounded d.negative 0 Number.leastExponent =
      .finite d.negative 0 Number.leastExponent := Number.bounded_of_le (by decide)
  rw [toNumber]
  split
  · rename_i hnone
    refine ⟨0, Number.leastExponent, .of_small ?_ ?_, hzero.symm⟩ <;>
      rw [magnitude, hnone, Nat.cast_zero, zero_mul]
    rw [mul_zero]
    positivity
  · rename_i hsome
    split
    · rename_i hlarge
      exact ⟨m, e, hnearest, (hnearest.bounded_eq (magnitude_large hsome hlarge) _).symm⟩
    · split
      · rename_i hsmall
        refine ⟨0, Number.leastExponent, .of_small ?_ (magnitude_small hsmall), hzero.symm⟩
        rw [magnitude]
        positivity
      · exact ⟨m, e, hnearest, hratio⟩

end Amqp.Decimal
