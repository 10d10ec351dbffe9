import Amqp.Json
import Amqp.Proofs.Number.Literal

/-!
# Numbers in JSON documents

The grammar of number literals in parts, and what a document that is a number consists of: one such
literal between blanks, whose value is that of the decimal literal with the same characters.
-/

namespace Amqp.Json

open Decimal (IsDigits Denotes)

variable {cs rest token : List Char} {fuel : Nat} {v : Value} {x : Number}

/-- The parts of a number literal. -/
structure Numeral where
  sign : List Char
  whole : List Char
  fraction : List Char
  exponent : List Char

namespace Numeral

/-- The characters of the literal. -/
def chars (t : Numeral) : List Char := t.sign ++ t.whole ++ t.fraction ++ t.exponent

/-- The grammar of number literals. -/
structure Valid (t : Numeral) : Prop where
  sign : t.sign = [] ∨ t.sign = ['-']
  whole : IsDigits t.whole
  /-- Only a zero alone begins with a zero. -/
  canonical : t.whole = ['0'] ∨ t.whole.head? ≠ some '0'
  fraction : t.fraction = [] ∨ ∃ ds, IsDigits ds ∧ t.fraction = '.' :: ds
  exponent : t.exponent = [] ∨ ∃ mark sign ds, (mark = 'e' ∨ mark = 'E') ∧
    (sign = [] ∨ sign = ['+'] ∨ sign = ['-']) ∧ IsDigits ds ∧ t.exponent = mark :: (sign ++ ds)

end Numeral

theorem scanDigits?_eq_some {ds : List Char} (h : scanDigits? cs = some (ds, rest)) :
    IsDigits ds ∧ cs = ds ++ rest := by
  rw [scanDigits?] at h
  split at h
  · contradiction
  · rename_i hne
    injection h with h
    injection h with hfront hback
    refine ⟨⟨?_, ?_⟩, ?_⟩
    · rintro rfl
      exact hne hfront
    · intro c hc
      rw [← hfront] at hc
      exact List.mem_takeWhile_imp hc
    · rw [← hfront, ← hback, List.takeWhile_append_dropWhile]

theorem scanWhole?_eq_some {ds : List Char} (h : scanWhole? cs = some (ds, rest)) :
    IsDigits ds ∧ (ds = ['0'] ∨ ds.head? ≠ some '0') ∧ cs = ds ++ rest := by
  rw [scanWhole?.eq_def] at h
  split at h
  · injection h with h
    injection h with hfront hback
    subst hfront hback
    refine ⟨⟨by decide, List.all_eq_true.mp rfl⟩, .inl rfl, rfl⟩
  · rename_i hother
    obtain ⟨hdigits, hsplit⟩ := scanDigits?_eq_some h
    refine ⟨hdigits, .inr ?_, hsplit⟩
    intro hzero
    obtain ⟨tail, rfl⟩ := List.head?_eq_some_iff.mp hzero
    exact hother _ hsplit

theorem scanFraction?_eq_some {ds : List Char} (h : scanFraction? cs = some (ds, rest)) :
    (ds = [] ∨ ∃ tail, IsDigits tail ∧ ds = '.' :: tail) ∧ cs = ds ++ rest := by
  rw [scanFraction?.eq_def] at h
  split at h
  · obtain ⟨⟨tail, rest'⟩, hscan, heq⟩ := Option.map_eq_some_iff.mp h
    obtain ⟨hdigits, hsplit⟩ := scanDigits?_eq_some hscan
    injection heq with hfront hback
    subst hfront hback hsplit
    exact ⟨.inr ⟨tail, hdigits, rfl⟩, rfl⟩
  · injection h with h
    injection h with hfront hback
    subst hfront hback
    exact ⟨.inl rfl, rfl⟩

theorem scanExponent?_eq_some {ds : List Char} (h : scanExponent? cs = some (ds, rest)) :
    (ds = [] ∨ ∃ mark sign tail, (mark = 'e' ∨ mark = 'E') ∧
      (sign = [] ∨ sign = ['+'] ∨ sign = ['-']) ∧ IsDigits tail ∧ ds = mark :: (sign ++ tail)) ∧
    cs = ds ++ rest := by
  rw [scanExponent?.eq_def] at h
  split at h
  · rename_i mark after
    split at h
    · rename_i hisMark
      split at h
      all_goals
        obtain ⟨⟨tail, rest'⟩, hscan, heq⟩ := Option.map_eq_some_iff.mp h
        obtain ⟨hdigits, hsplit⟩ := scanDigits?_eq_some hscan
        injection heq with hfront hback
        subst hfront hback hsplit
      · exact ⟨.inr ⟨mark, ['+'], tail, hisMark, by simp, hdigits, rfl⟩, rfl⟩
      · exact ⟨.inr ⟨mark, ['-'], tail, hisMark, by simp, hdigits, rfl⟩, rfl⟩
      · exact ⟨.inr ⟨mark, [], tail, hisMark, by simp, hdigits, rfl⟩, rfl⟩
    · injection h with h
      injection h with hfront hback
      subst hfront hback
      exact ⟨.inl rfl, rfl⟩
  · injection h with h
    injection h with hfront hback
    subst hfront hback
    exact ⟨.inl rfl, rfl⟩

theorem scanUnsigned?_eq_some (h : scanUnsigned? cs = some (token, rest)) :
    ∃ t : Numeral, t.Valid ∧ t.sign = [] ∧ token = t.chars ∧ cs = token ++ rest := by
  simp only [scanUnsigned?, Option.bind_eq_bind, Option.bind_eq_some_iff, Prod.exists,
    Option.pure_def, Option.some_inj, Prod.mk.injEq] at h
  obtain ⟨whole, afterWhole, hwhole, fraction, afterFraction, hfraction, exponent, afterExponent,
    hexponent, rfl, rfl⟩ := h
  obtain ⟨hdigits, hcanonical, rfl⟩ := scanWhole?_eq_some hwhole
  obtain ⟨hisFraction, rfl⟩ := scanFraction?_eq_some hfraction
  obtain ⟨hisExponent, rfl⟩ := scanExponent?_eq_some hexponent
  refine ⟨⟨[], whole, fraction, exponent⟩,
    ⟨.inl rfl, hdigits, hcanonical, hisFraction, hisExponent⟩, rfl, rfl, ?_⟩
  simp only [List.append_assoc]

/-- What is scanned as a number is a number literal. -/
theorem scanNumber?_eq_some (h : scanNumber? cs = some (token, rest)) :
    ∃ t : Numeral, t.Valid ∧ token = t.chars ∧ cs = token ++ rest := by
  rw [scanNumber?.eq_def] at h
  split at h
  · obtain ⟨⟨unsigned, rest'⟩, hscan, heq⟩ := Option.map_eq_some_iff.mp h
    obtain ⟨t, hvalid, hsign, rfl, rfl⟩ := scanUnsigned?_eq_some hscan
    injection heq with hfront hback
    subst hfront hback
    refine ⟨{ t with sign := ['-'] }, { hvalid with sign := .inr rfl }, ?_, rfl⟩
    simp [Numeral.chars, hsign]
  · obtain ⟨t, hvalid, -, hchars, hsplit⟩ := scanUnsigned?_eq_some h
    exact ⟨t, hvalid, hchars, hsplit⟩

/-- A literal with neither fraction nor exponent denotes an integer. -/
theorem Numeral.Valid.exists_denotes {t : Numeral} (h : t.Valid) (hnoFraction : t.fraction = [])
    (hnoExponent : t.exponent = []) : ∃ n, Denotes t.chars n := by
  have hchars : t.chars = t.sign ++ t.whole := by
    rw [Numeral.chars, hnoFraction, hnoExponent, List.append_nil, List.append_nil]
  rw [hchars]
  obtain hsign | hsign := h.sign <;> rw [hsign]
  · exact ⟨_, .bare h.whole⟩
  · exact ⟨_, .minus h.whole⟩

/-- The characters of number literals. -/
theorem Numeral.Valid.mem_chars {t : Numeral} (h : t.Valid) {c : Char} (hc : c ∈ t.chars) :
    c.isDigit ∨ c ∈ ['-', '+', '.', 'e', 'E'] := by
  have hdigits {ds : List Char} (h : IsDigits ds) (hc : c ∈ ds) : c.isDigit := h.2 c hc
  simp only [Numeral.chars, List.mem_append] at hc
  obtain ((hc | hc) | hc) | hc := hc
  · obtain hsign | hsign := h.sign <;> simp_all
  · exact .inl (hdigits h.whole hc)
  · obtain hnone | ⟨ds, hisDigits, hsome⟩ := h.fraction
    · simp_all
    · simp only [hsome, List.mem_cons] at hc
      obtain rfl | hc := hc
      · simp
      · exact .inl (hdigits hisDigits hc)
  · obtain hnone | ⟨mark, sign, ds, hisMark, hisSign, hisDigits, hsome⟩ := h.exponent
    · simp_all
    · simp only [hsome, List.mem_cons, List.mem_append] at hc
      obtain rfl | hc | hc := hc
      · right; obtain rfl | rfl := hisMark <;> simp
      · right; obtain rfl | rfl | rfl := hisSign <;> simp_all
      · exact .inl (hdigits hisDigits hc)

/-! ## Documents -/

theorem readElements?_isList {read : List Value} (h : readElements? fuel read cs = some (v, rest)) :
    ∃ vs, v = .list vs := by
  induction fuel generalizing read cs with
  | zero => rw [readElements?] at h; contradiction
  | succ fuel ih =>
    rw [readElements?] at h
    split at h
    · contradiction
    · split at h
      · exact ih h
      · injection h with h
        injection h with hvalue
        exact ⟨_, hvalue.symm⟩
      · contradiction

theorem readFields?_isTable {read : List (String × Value)}
    (h : readFields? fuel read cs = some (v, rest)) : ∃ fields, v = .table fields := by
  induction fuel generalizing read cs with
  | zero => rw [readFields?] at h; contradiction
  | succ fuel ih =>
    rw [readFields?] at h
    split at h
    · split at h
      · contradiction
      · split at h
        · split at h
          · contradiction
          · split at h
            · exact ih h
            · injection h with h
              injection h with hvalue
              exact ⟨_, hvalue.symm⟩
            · contradiction
        · contradiction
    · contradiction

/-- Only a number literal is read as a number. -/
theorem readNumber?_of_readValue? (h : readValue? fuel cs = some (.number x, rest)) :
    readNumber? (skipBlanks cs) = some (.number x, rest) := by
  cases fuel with
  | zero => rw [readValue?] at h; contradiction
  | succ fuel =>
    rw [readValue?] at h
    split at h
    · split at h
      · cases h
      · obtain ⟨fields, heq⟩ := readFields?_isTable h
        cases heq
    · split at h
      · cases h
      · obtain ⟨vs, heq⟩ := readElements?_isList h
        cases heq
    · obtain ⟨⟨text, after⟩, -, heq⟩ := Option.map_eq_some_iff.mp h
      cases heq
    · cases h
    · cases h
    · cases h
    · exact h

/-- The blanks before a token. -/
theorem eq_append_skipBlanks (cs : List Char) :
    ∃ before, (∀ c ∈ before, isBlank c) ∧ cs = before ++ skipBlanks cs :=
  ⟨cs.takeWhile isBlank, fun _ hc => List.mem_takeWhile_imp hc,
    List.takeWhile_append_dropWhile.symm⟩

/-- A document that is a number is a number literal between blanks, and has the value that the
literal has as a decimal. -/
theorem exists_numeral_of_parseChars? (h : parseChars? cs = some (.number x)) :
    ∃ before after, ∃ t : Numeral, t.Valid ∧ (∀ c ∈ before, isBlank c) ∧ (∀ c ∈ after, isBlank c) ∧
      cs = before ++ t.chars ++ after ∧ ∃ d, Decimal.read? t.chars = some d ∧ x = d.toNumber := by
  rw [parseChars?] at h
  split at h
  · rename_i v rest hread
    obtain ⟨hempty, heq⟩ := Option.ite_none_right_eq_some.mp h
    obtain rfl := Option.some_inj.mp heq
    have hnumber := readNumber?_of_readValue? hread
    simp only [readNumber?, Option.bind_eq_bind, Option.bind_eq_some_iff, Prod.exists,
      Option.pure_def, Option.some_inj, Prod.mk.injEq, Value.number.injEq] at hnumber
    obtain ⟨token, rest', hscan, d, hdecimal, rfl, rfl⟩ := hnumber
    obtain ⟨t, hvalid, rfl, hsplit⟩ := scanNumber?_eq_some hscan
    obtain ⟨before, hblank, hfront⟩ := eq_append_skipBlanks cs
    refine ⟨before, rest', t, hvalid, hblank, ?_, ?_, d, hdecimal, rfl⟩
    · exact List.dropWhile_eq_nil_iff.mp (List.isEmpty_iff.mp hempty)
    · rw [hfront, hsplit, List.append_assoc]
  · contradiction

end Amqp.Json
