import Amqp.Text.Utf8

/-!
# Well-formed UTF-8

A character has one form, of one to four bytes in given ranges, and bytes are well formed if they
are such forms one after the other. The strict reader and the writer are inverse to each other: what
is read is the text whose bytes were given, so exactly the well-formed bytes are read. The lenient
reader changes nothing where nothing is broken.
-/

namespace Amqp.Utf8

/-! ## Characters and bytes -/

/-- The code points of characters: no surrogate, and nothing beyond the last plane. -/
theorem toNat_bounds (c : Char) : c.toNat < 0xd800 ∨ 0xe000 ≤ c.toNat ∧ c.toNat < 0x110000 := by
  have h := c.valid
  simp only [UInt32.isValidChar, Nat.isValidChar, Char.toNat_val] at h
  omega

theorem toNat_ofNat {n : Nat} (h : n < 0xd800 ∨ 0xe000 ≤ n ∧ n < 0x110000) :
    (Char.ofNat n).toNat = n := by
  have hvalid : n.isValidChar := by
    simp only [Nat.isValidChar]
    omega
  rw [Char.ofNat, dif_pos hvalid]
  rfl

theorem toNat_toUInt8 {n : Nat} (h : n < 256) : n.toUInt8.toNat = n := Nat.mod_eq_of_lt h

theorem toUInt8_eq {n : Nat} {a : UInt8} (h : n = a.toNat) : n.toUInt8 = a := by
  rw [h]
  exact UInt8.toNat_inj.mp (toNat_toUInt8 a.toNat_lt)

/-- The byte lies in the range. -/
def Within (low high : Nat) (b : UInt8) : Prop := low ≤ b.toNat ∧ b.toNat ≤ high

theorem within_toUInt8 {low high n : Nat} (h : low ≤ n ∧ n ≤ high) (hhigh : high < 256) :
    Within low high n.toUInt8 := by
  rw [Within, toNat_toUInt8 (by omega)]
  exact h

theorem isContinuation_iff {b : UInt8} : isContinuation b = true ↔ Within 0x80 0xbf b := by
  simp only [isContinuation, Bool.and_eq_true, decide_eq_true_eq, UInt8.le_iff_toNat_le,
    UInt8.lt_iff_toNat_lt, Within]
  exact and_congr_right fun _ => Nat.lt_succ_iff

/-- A byte that follows another one carries six bits. -/
theorem toNat_eq_payloadBits {b : UInt8} (h : Within 0x80 0xbf b) :
    b.toNat = 0x80 + payloadBits b ∧ payloadBits b < 64 := by
  obtain ⟨hlow, hhigh⟩ := h
  unfold payloadBits
  omega

/-! ## Well-formed sequences -/

/-- The least byte that follows the first one of three or four; below it the form is overlong. -/
def leastSecond (a : UInt8) : Nat :=
  if a.toNat = 0xe0 then 0xa0 else if a.toNat = 0xf0 then 0x90 else 0x80

/-- The greatest byte that follows the first one of three or four; above it there are surrogates,
or no characters. -/
def greatestSecond (a : UInt8) : Nat :=
  if a.toNat = 0xed then 0x9f else if a.toNat = 0xf4 then 0x8f else 0xbf

/-- The bytes of one character, each in its range. -/
inductive IsSequence : List UInt8 → Prop where
  | one {a : UInt8} (ha : Within 0x00 0x7f a) : IsSequence [a]
  | two {a b : UInt8} (ha : Within 0xc2 0xdf a) (hb : Within 0x80 0xbf b) : IsSequence [a, b]
  | three {a b c : UInt8} (ha : Within 0xe0 0xef a)
      (hb : Within (leastSecond a) (greatestSecond a) b)
      (hc : Within 0x80 0xbf c) : IsSequence [a, b, c]
  | four {a b c d : UInt8} (ha : Within 0xf0 0xf4 a)
      (hb : Within (leastSecond a) (greatestSecond a) b)
      (hc : Within 0x80 0xbf c) (hd : Within 0x80 0xbf d) : IsSequence [a, b, c, d]

/-- Bytes are well formed if they are the sequences of characters, one after the other. -/
inductive WellFormed : List UInt8 → Prop where
  | nil : WellFormed []
  | append {s rest : List UInt8} (hs : IsSequence s) (hrest : WellFormed rest) :
      WellFormed (s ++ rest)

/-! ## One character -/

variable {a b c d : UInt8} {rest bytes : List UInt8} {x : Char} {v : Nat}

theorem encodeChar_one (ha : Within 0 0x7f a) : encodeChar (Char.ofNat a.toNat) = [a] := by
  have ha := ha.2
  have hv := toNat_ofNat (n := a.toNat) (by omega)
  simp only [encodeChar, hv]
  rw [if_pos (by omega), List.singleton_inj]
  exact toUInt8_eq rfl

theorem encodeChar_two (ha : Within 0xc2 0xdf a) (hb : Within 0x80 0xbf b) :
    encodeChar (Char.ofNat ((a.toNat - 0xc0) * 64 + payloadBits b)) = [a, b] := by
  obtain ⟨ha, ha'⟩ := ha
  have hb := toNat_eq_payloadBits hb
  have hn := toNat_ofNat (n := (a.toNat - 0xc0) * 64 + payloadBits b) (by omega)
  have hlong : ¬(a.toNat - 0xc0) * 64 + payloadBits b < 0x80 := by omega
  have hshort : (a.toNat - 0xc0) * 64 + payloadBits b < 0x800 := by omega
  simp only [encodeChar, hn, if_neg hlong, if_pos hshort, List.cons.injEq, and_true]
  exact ⟨toUInt8_eq (by omega), toUInt8_eq (by omega)⟩

theorem encodeChar_three (ha : Within 0xe0 0xef a) (hb : Within 0x80 0xbf b)
    (hc : Within 0x80 0xbf c)
    (hv : ((a.toNat - 0xe0) * 64 + payloadBits b) * 64 + payloadBits c = v)
    (hbounds : 0x800 ≤ v ∧ ¬(0xd800 ≤ v ∧ v < 0xe000)) :
    encodeChar (Char.ofNat v) = [a, b, c] := by
  obtain ⟨ha, ha'⟩ := ha
  have hb := toNat_eq_payloadBits hb
  have hc := toNat_eq_payloadBits hc
  have hn := toNat_ofNat (n := v) (by omega)
  have hlong : ¬v < 0x800 := by omega
  have hshort : v < 0x10000 := by omega
  simp only [encodeChar, hn, if_neg (show ¬v < 0x80 by omega), if_neg hlong, if_pos hshort,
    List.cons.injEq, and_true]
  exact ⟨toUInt8_eq (by omega), toUInt8_eq (by omega), toUInt8_eq (by omega)⟩

theorem encodeChar_four (ha : Within 0xf0 0xf4 a) (hb : Within 0x80 0xbf b)
    (hc : Within 0x80 0xbf c) (hd : Within 0x80 0xbf d)
    (hv : (((a.toNat - 0xf0) * 64 + payloadBits b) * 64 + payloadBits c) * 64 + payloadBits d = v)
    (hbounds : 0x10000 ≤ v ∧ v < 0x110000) :
    encodeChar (Char.ofNat v) = [a, b, c, d] := by
  obtain ⟨ha, ha'⟩ := ha
  have hb := toNat_eq_payloadBits hb
  have hc := toNat_eq_payloadBits hc
  have hd := toNat_eq_payloadBits hd
  have hn := toNat_ofNat (n := v) (by omega)
  have hlong : ¬v < 0x10000 := by omega
  simp only [encodeChar, hn, if_neg (show ¬v < 0x80 by omega), if_neg (show ¬v < 0x800 by omega),
    if_neg hlong, List.cons.injEq, and_true]
  exact ⟨toUInt8_eq (by omega), toUInt8_eq (by omega), toUInt8_eq (by omega),
    toUInt8_eq (by omega)⟩

theorem decodeChar?_one (ha : Within 0 0x7f a) :
    decodeChar? (a :: rest) = some (Char.ofNat a.toNat, rest) := by
  have ha := ha.2
  rw [decodeChar?.eq_def]
  grind [UInt8.lt_iff_toNat_lt]

theorem decodeChar?_two (ha : Within 0xc2 0xdf a) (hb : Within 0x80 0xbf b) :
    decodeChar? (a :: b :: rest) =
      some (Char.ofNat ((a.toNat - 0xc0) * 64 + payloadBits b), rest) := by
  obtain ⟨ha, ha'⟩ := ha
  have hb := isContinuation_iff.mpr hb
  grind [decodeChar?, UInt8.lt_iff_toNat_lt, UInt8.le_iff_toNat_le]

theorem decodeChar?_three (ha : Within 0xe0 0xef a) (hb : Within 0x80 0xbf b)
    (hc : Within 0x80 0xbf c)
    (hv : ((a.toNat - 0xe0) * 64 + payloadBits b) * 64 + payloadBits c = v)
    (hbounds : 0x800 ≤ v ∧ ¬(0xd800 ≤ v ∧ v < 0xe000)) :
    decodeChar? (a :: b :: c :: rest) = some (Char.ofNat v, rest) := by
  obtain ⟨ha, ha'⟩ := ha
  have hb := isContinuation_iff.mpr hb
  have hc := isContinuation_iff.mpr hc
  grind [decodeChar?, UInt8.lt_iff_toNat_lt, UInt8.le_iff_toNat_le]

theorem decodeChar?_four (ha : Within 0xf0 0xf4 a) (hb : Within 0x80 0xbf b)
    (hc : Within 0x80 0xbf c) (hd : Within 0x80 0xbf d)
    (hv : (((a.toNat - 0xf0) * 64 + payloadBits b) * 64 + payloadBits c) * 64 + payloadBits d = v)
    (hbounds : 0x10000 ≤ v ∧ v < 0x110000) :
    decodeChar? (a :: b :: c :: d :: rest) = some (Char.ofNat v, rest) := by
  obtain ⟨ha, ha'⟩ := ha
  have hb := isContinuation_iff.mpr hb
  have hc := isContinuation_iff.mpr hc
  have hd := isContinuation_iff.mpr hd
  grind [decodeChar?, UInt8.lt_iff_toNat_lt, UInt8.le_iff_toNat_le]

theorem within_of_le_of_lt {low high : UInt8} (h : low ≤ a ∧ a < high) :
    Within low.toNat (high.toNat - 1) a := by
  have hhigh := UInt8.lt_iff_toNat_lt.mp h.2
  exact ⟨UInt8.le_iff_toNat_le.mp h.1, by omega⟩

/-- What is read is the form of the character that comes out. -/
theorem eq_encodeChar_of_decodeChar? (h : decodeChar? bytes = some (x, rest)) :
    bytes = encodeChar x ++ rest := by
  fun_cases decodeChar? bytes with
  | case2 a more ha =>
    have ha : Within 0 0x7f a := ⟨Nat.zero_le _, Nat.le_of_lt_succ (UInt8.lt_iff_toNat_lt.mp ha)⟩
    rw [decodeChar?_one ha] at h
    obtain ⟨rfl, rfl⟩ := Prod.mk.inj (Option.some.inj h)
    exact congrArg (· ++ more) (encodeChar_one ha).symm
  | case3 a _ ha b more hb =>
    have hb := isContinuation_iff.mp hb
    rw [decodeChar?_two (within_of_le_of_lt ha) hb] at h
    obtain ⟨rfl, rfl⟩ := Prod.mk.inj (Option.some.inj h)
    exact congrArg (· ++ more) (encodeChar_two (within_of_le_of_lt ha) hb).symm
  | case6 a _ _ ha b c more v hbc =>
    obtain ⟨hb, hc, hbounds⟩ := hbc
    have hb := isContinuation_iff.mp hb
    have hc := isContinuation_iff.mp hc
    rw [decodeChar?_three (within_of_le_of_lt ha) hb hc rfl hbounds] at h
    obtain ⟨rfl, rfl⟩ := Prod.mk.inj (Option.some.inj h)
    exact congrArg (· ++ more) (encodeChar_three (within_of_le_of_lt ha) hb hc rfl hbounds).symm
  | case9 a _ _ _ ha b c d more v hbcd =>
    obtain ⟨hb, hc, hd, hbounds⟩ := hbcd
    have hb := isContinuation_iff.mp hb
    have hc := isContinuation_iff.mp hc
    have hd := isContinuation_iff.mp hd
    rw [decodeChar?_four (within_of_le_of_lt ha) hb hc hd rfl hbounds] at h
    obtain ⟨rfl, rfl⟩ := Prod.mk.inj (Option.some.inj h)
    exact congrArg (· ++ more) (encodeChar_four (within_of_le_of_lt ha) hb hc hd rfl hbounds).symm
  | _ =>
    rw [decodeChar?.eq_def] at h
    grind

theorem payloadBits_toUInt8 {n : Nat} (h : n < 64) : payloadBits (0x80 + n).toUInt8 = n := by
  unfold payloadBits
  rw [toNat_toUInt8 (by omega)]
  omega

theorem within_continuation {n : Nat} (h : n < 64) : Within 0x80 0xbf (0x80 + n).toUInt8 :=
  within_toUInt8 (by omega) (by decide)

/-- The form of a character is read back, whatever follows it. -/
theorem decodeChar?_encodeChar (x : Char) (rest : List UInt8) :
    decodeChar? (encodeChar x ++ rest) = some (x, rest) := by
  have hbounds := toNat_bounds x
  have hmod (n : Nat) : n % 64 < 64 := Nat.mod_lt n (by decide)
  have hx {n : Nat} (h : n = x.toNat) : some (Char.ofNat n, rest) = some (x, rest) := by
    rw [h, Char.ofNat_toNat]
  unfold encodeChar
  dsimp only
  split
  · have ha : Within 0 0x7f x.toNat.toUInt8 := within_toUInt8 (by omega) (by decide)
    exact (decodeChar?_one ha).trans (hx (toNat_toUInt8 (by omega)))
  · split
    · have ha : Within 0xc2 0xdf (0xc0 + x.toNat / 64).toUInt8 :=
        within_toUInt8 (by omega) (by decide)
      refine (decodeChar?_two ha (within_continuation (hmod _))).trans (hx ?_)
      rw [toNat_toUInt8 (by omega), payloadBits_toUInt8 (hmod _)]
      omega
    · split
      · have ha : Within 0xe0 0xef (0xe0 + x.toNat / 4096).toUInt8 :=
          within_toUInt8 (by omega) (by decide)
        refine (decodeChar?_three ha (within_continuation (hmod _)) (within_continuation (hmod _))
          rfl ?_).trans (hx ?_)
        all_goals
          rw [toNat_toUInt8 (by omega), payloadBits_toUInt8 (hmod _), payloadBits_toUInt8 (hmod _)]
          omega
      · have ha : Within 0xf0 0xf4 (0xf0 + x.toNat / 262144).toUInt8 :=
          within_toUInt8 (by omega) (by decide)
        refine (decodeChar?_four ha (within_continuation (hmod _)) (within_continuation (hmod _))
          (within_continuation (hmod _)) rfl ?_).trans (hx ?_)
        all_goals
          rw [toNat_toUInt8 (by omega), payloadBits_toUInt8 (hmod _), payloadBits_toUInt8 (hmod _),
            payloadBits_toUInt8 (hmod _)]
          omega

/-- What the range of a second byte says. -/
theorem within_second_iff :
    Within (leastSecond a) (greatestSecond a) b ↔
      Within 0x80 0xbf b ∧ (a.toNat = 0xe0 → 0xa0 ≤ b.toNat) ∧ (a.toNat = 0xed → b.toNat ≤ 0x9f) ∧
        (a.toNat = 0xf0 → 0x90 ≤ b.toNat) ∧ (a.toNat = 0xf4 → b.toNat ≤ 0x8f) := by
  unfold Within leastSecond greatestSecond
  split <;> split <;> grind

/-- The form of a character is a well-formed sequence. -/
theorem isSequence_encodeChar (x : Char) : IsSequence (encodeChar x) := by
  have hbounds := toNat_bounds x
  have hmod (n : Nat) : n % 64 < 64 := Nat.mod_lt n (by decide)
  unfold encodeChar
  dsimp only
  split
  · exact .one (within_toUInt8 (by omega) (by decide))
  · split
    · exact .two (within_toUInt8 (by omega) (by decide)) (within_continuation (hmod _))
    · split
      · refine .three (within_toUInt8 (by omega) (by decide)) ?_ (within_continuation (hmod _))
        rw [within_second_iff, toNat_toUInt8 (by omega), toNat_toUInt8 (by omega)]
        exact ⟨within_continuation (hmod _), by omega⟩
      · refine .four (within_toUInt8 (by omega) (by decide)) ?_ (within_continuation (hmod _))
          (within_continuation (hmod _))
        rw [within_second_iff, toNat_toUInt8 (by omega), toNat_toUInt8 (by omega)]
        exact ⟨within_continuation (hmod _), by omega⟩

/-- A well-formed sequence is the form of a character. -/
theorem exists_encodeChar_eq {s : List UInt8} (h : IsSequence s) : ∃ x, encodeChar x = s := by
  cases h with
  | one ha => exact ⟨_, encodeChar_one ha⟩
  | two ha hb => exact ⟨_, encodeChar_two ha hb⟩
  | three ha hb hc =>
    obtain ⟨hb, hsecond⟩ := within_second_iff.mp hb
    refine ⟨_, encodeChar_three ha hb hc rfl ?_⟩
    have hbits := toNat_eq_payloadBits hb
    have hbits' := toNat_eq_payloadBits hc
    unfold Within at ha
    omega
  | four ha hb hc hd =>
    obtain ⟨hb, hsecond⟩ := within_second_iff.mp hb
    refine ⟨_, encodeChar_four ha hb hc hd rfl ?_⟩
    have hbits := toNat_eq_payloadBits hb
    have hbits' := toNat_eq_payloadBits hc
    have hbits'' := toNat_eq_payloadBits hd
    unfold Within at ha
    omega

/-! ## Texts -/

theorem encodeChar_ne_nil (x : Char) : encodeChar x ≠ [] := by
  intro h
  have hread := decodeChar?_encodeChar x []
  rw [h, List.append_nil, decodeChar?] at hread
  exact Option.some_ne_none _ hread.symm

theorem exists_cons_eq (x : Char) (rest : List UInt8) :
    ∃ b bs, encodeChar x ++ rest = b :: bs := by
  obtain ⟨b, bs, h⟩ := List.exists_cons_of_ne_nil (encodeChar_ne_nil x)
  exact ⟨b, bs ++ rest, by rw [h, List.cons_append]⟩

theorem decodeAfter_encodeChar (read : List Char) (x : Char) (rest : List UInt8) :
    decodeAfter read (encodeChar x ++ rest) = decodeAfter (x :: read) rest := by
  have hread := decodeChar?_encodeChar x rest
  obtain ⟨b, bs, hbytes⟩ := exists_cons_eq x rest
  rw [hbytes] at hread ⊢
  rw [decodeAfter]
  split
  · rename_i y rest' h
    rw [hread] at h
    cases h
    rfl
  · rename_i h
    rw [hread] at h
    cases h

/-- The forms of characters are read back. -/
theorem decodeAfter_flatMap (read cs : List Char) :
    decodeAfter read (cs.flatMap encodeChar) = some (read.reverse ++ cs) := by
  induction cs generalizing read with
  | nil => rw [List.flatMap_nil, decodeAfter, List.append_nil]
  | cons c cs ih =>
    rw [List.flatMap_cons, decodeAfter_encodeChar, ih, List.reverse_cons, List.append_assoc,
      List.singleton_append]

/-- Nothing else is read. -/
theorem eq_flatMap_of_decodeAfter {read cs : List Char} {bytes : List UInt8}
    (h : decodeAfter read bytes = some cs) :
    ∃ more, cs = read.reverse ++ more ∧ bytes = more.flatMap encodeChar := by
  fun_induction decodeAfter read bytes with
  | case1 read => exact ⟨[], by rw [← Option.some.inj h, List.append_nil], rfl⟩
  | case2 read b bs c rest hread ih =>
    obtain ⟨more, rfl, rfl⟩ := ih h
    exact ⟨c :: more, by rw [List.reverse_cons, List.append_assoc, List.singleton_append],
      eq_encodeChar_of_decodeChar? hread⟩
  | case3 => cases h

/-- The bytes of a text, and no others, are read as it. -/
theorem decode?_eq_some_iff {bytes : List UInt8} {s : String} :
    decode? bytes = some s ↔ bytes = encode s := by
  rw [decode?, Option.map_eq_some_iff, encode]
  constructor
  · rintro ⟨cs, hcs, rfl⟩
    obtain ⟨more, rfl, rfl⟩ := eq_flatMap_of_decodeAfter hcs
    rw [String.toList_ofList]
  · rintro rfl
    exact ⟨s.toList, decodeAfter_flatMap [] s.toList, String.ofList_toList⟩

/-- The bytes of a text are well formed, and no others. -/
theorem wellFormed_iff {bytes : List UInt8} : WellFormed bytes ↔ ∃ s, bytes = encode s := by
  constructor
  · intro h
    induction h with
    | nil => exact ⟨"", rfl⟩
    | append hs _ ih =>
      obtain ⟨x, rfl⟩ := exists_encodeChar_eq hs
      obtain ⟨s, rfl⟩ := ih
      exact ⟨String.ofList (x :: s.toList), by
        rw [encode, encode, String.toList_ofList, List.flatMap_cons]⟩
  · rintro ⟨s, rfl⟩
    rw [encode]
    induction s.toList with
    | nil => exact .nil
    | cons c cs ih => exact .append (isSequence_encodeChar c) ih

/-- Bytes that are not well formed are read as no text. -/
theorem decode?_eq_none_iff {bytes : List UInt8} : decode? bytes = none ↔ ¬WellFormed bytes := by
  rw [wellFormed_iff, Option.eq_none_iff_forall_ne_some]
  simp only [ne_eq, decode?_eq_some_iff, not_exists]

theorem decodeLenientAfter_encodeChar (read : List Char) (x : Char) (rest : List UInt8) :
    decodeLenientAfter read (encodeChar x ++ rest) = decodeLenientAfter (x :: read) rest := by
  have hread := decodeChar?_encodeChar x rest
  obtain ⟨b, bs, hbytes⟩ := exists_cons_eq x rest
  rw [hbytes] at hread ⊢
  rw [decodeLenientAfter]
  split
  · rename_i y rest' h
    rw [hread] at h
    cases h
    rfl
  · rename_i h
    rw [hread] at h
    cases h

/-- Where nothing is broken, nothing is replaced. -/
theorem decodeLenient_flatMap (cs : List Char) : decodeLenient (cs.flatMap encodeChar) = cs := by
  have hafter (read : List Char) :
      decodeLenientAfter read (cs.flatMap encodeChar) = read.reverse ++ cs := by
    induction cs generalizing read with
    | nil => rw [List.flatMap_nil, decodeLenientAfter, List.append_nil]
    | cons c cs ih =>
      rw [List.flatMap_cons, decodeLenientAfter_encodeChar, ih, List.reverse_cons,
        List.append_assoc, List.singleton_append]
  exact hafter []

end Amqp.Utf8
