import Amqp.Proofs.Text.Ascii
import Amqp.Proofs.Url.Punycode

/-!
# Domains that are read again

A domain is written in ASCII, and what is written reads back as itself: its labels are valid, and
those that are encoded are read again.
-/

namespace Amqp.Url

variable {cs label name : List Char} {c : Char}

theorem isAscii_iff : isAscii cs ↔ ∀ c ∈ cs, c.toNat < 128 := by
  simp only [isAscii, List.all_eq_true, decide_eq_true_eq]

/-- Of ASCII all but the capital letters are kept. -/
theorem isKept_iff (h : c.toNat < 128) : isKept c ↔ ¬c.isUpper := by
  rw [isKept, if_pos h, Bool.not_eq_true', Bool.not_eq_true]

theorem lower_of_isKept (hascii : isAscii cs) (hkept : cs.all isKept) : lower cs = cs := by
  have hsmall : ∀ c ∈ cs, c.toLower = c := fun c hc =>
    Text.toLower_of_not_isUpper
      ((isKept_iff (isAscii_iff.mp hascii c hc)).mp (List.all_eq_true.mp hkept c hc))
  rw [lower, List.map_congr_left hsmall]
  exact List.map_id' cs

/-! ## Labels -/

/-- A label stays as it is, or what is written encodes it. -/
theorem labelToAscii?_eq_some : labelToAscii? label = some name ↔
    isAscii label ∧ label.all isKept ∧
        (encodedMark.isPrefixOf label → isEncodedLabel (label.drop encodedMark.length)) ∧
        name = label ∨
      isAscii label = false ∧ isValidLabel label ∧ name = Punycode.encode label := by
  rw [labelToAscii?]
  by_cases hascii : isAscii label
  · rw [if_pos hascii, Option.ite_none_left_eq_some, Option.ite_none_left_eq_some, Option.some_inj]
    simp only [hascii, Bool.not_eq_true', Bool.not_eq_false, Bool.and_eq_true, not_and, true_and,
      Bool.true_eq_false, false_and, or_false, eq_comm (a := label)]
  · rw [if_neg hascii, Option.ite_none_right_eq_some, Option.some_inj]
    simp only [Bool.eq_false_iff.mpr hascii, Bool.false_eq_true, false_and, false_or, true_and,
      eq_comm (a := name)]

/-- Encoding gives a label in ASCII without capital letters, and no full stop is new in it. -/
theorem isKept_of_mem_encode (h : isValidLabel label) (hc : c ∈ Punycode.encode label) :
    c.toNat < 128 ∧ isKept c ∧ (c = '.' → '.' ∈ label) := by
  rw [isValidLabel, Bool.and_eq_true, Bool.and_eq_true] at h
  obtain ⟨hmem, hascii⟩ | hdigit | rfl := Punycode.mem_encode hc
  · exact ⟨hascii, List.all_eq_true.mp h.1.1 c hmem, fun hdot => hdot ▸ hmem⟩
  · have hdigits : Punycode.digits.all fun c => c.toNat < 128 && isKept c && c != '.' := by decide
    have hplain := List.all_eq_true.mp hdigits c hdigit
    rw [Bool.and_eq_true, Bool.and_eq_true, decide_eq_true_eq, bne_iff_ne] at hplain
    exact ⟨hplain.1.1, hplain.1.2, fun hdot => absurd hdot hplain.2⟩
  · exact ⟨by decide, rfl, fun hdot => absurd hdot (by decide)⟩

/-- A label is written in ASCII. -/
theorem isAscii_of_labelToAscii? (h : labelToAscii? label = some name) : isAscii name := by
  obtain ⟨hascii, -, -, rfl⟩ | ⟨-, hvalid, rfl⟩ := labelToAscii?_eq_some.mp h
  · exact hascii
  · exact isAscii_iff.mpr fun c hc => (isKept_of_mem_encode hvalid hc).1

/-- A label is written without capital letters. -/
theorem isKept_of_labelToAscii? (h : labelToAscii? label = some name) : name.all isKept := by
  obtain ⟨-, hkept, -, rfl⟩ | ⟨-, hvalid, rfl⟩ := labelToAscii?_eq_some.mp h
  · exact hkept
  · exact List.all_eq_true.mpr fun c hc => (isKept_of_mem_encode hvalid hc).2.1

/-- A label without a full stop is written without one. -/
theorem notMem_of_labelToAscii? (h : labelToAscii? label = some name) (hdot : '.' ∉ label) :
    '.' ∉ name := by
  obtain ⟨-, -, -, rfl⟩ | ⟨-, hvalid, rfl⟩ := labelToAscii?_eq_some.mp h
  · exact hdot
  · exact fun hmem => hdot ((isKept_of_mem_encode hvalid hmem).2.2 rfl)

/-- A label in ASCII reads back as itself: an encoded one encodes the label that it was made of. -/
theorem labelToAscii?_again (h : labelToAscii? label = some name) :
    labelToAscii? name = some name := by
  have hname := isAscii_of_labelToAscii? h
  obtain ⟨-, -, -, rfl⟩ | ⟨hascii, hvalid, rfl⟩ := labelToAscii?_eq_some.mp h
  · exact h
  · obtain ⟨code, hcode, hdecode⟩ := Punycode.decode?_encode (Bool.eq_false_iff.mp hascii)
    have hencoded : isEncodedLabel code := by
      rw [isEncodedLabel, hdecode]
      dsimp only
      rw [hascii, hvalid]
      rfl
    refine labelToAscii?_eq_some.mpr (.inl ⟨hname, isKept_of_labelToAscii? h, fun _ => ?_, rfl⟩)
    rw [hcode]
    exact hencoded

/-! ## Domains -/

theorem domainToAscii?_eq_some : domainToAscii? cs = some name ↔
    ∃ folded labels, foldDomain? cs = some folded ∧
      (Text.splitOn '.' folded).mapM labelToAscii? = some labels ∧
      ['.'].intercalate labels = name := by
  simp only [domainToAscii?, Option.bind_eq_bind, Option.bind_eq_some_iff, Option.pure_def,
    Option.some_inj, exists_and_left]

/-- A domain is written in ASCII. -/
theorem isAscii_of_domainToAscii? (h : domainToAscii? cs = some name) : isAscii name := by
  obtain ⟨folded, labels, -, hlabels, rfl⟩ := domainToAscii?_eq_some.mp h
  have hascii : ∀ label ∈ labels, isAscii label :=
    forall_of_mapM (fun _ _ _ h => isAscii_of_labelToAscii? h) hlabels
  rw [isAscii_iff]
  intro c hc
  obtain rfl | ⟨label, hlabel, hc⟩ := Text.mem_intercalate hc
  · decide
  · exact isAscii_iff.mp (hascii label hlabel) c hc

/-- A domain in ASCII reads back as itself. -/
theorem domainToAscii?_again (h : domainToAscii? cs = some name) :
    domainToAscii? name = some name := by
  have hname := isAscii_of_domainToAscii? h
  obtain ⟨folded, labels, -, hlabels, rfl⟩ := domainToAscii?_eq_some.mp h
  have hagain : ∀ label ∈ labels, labelToAscii? label = some label :=
    forall_of_mapM (fun _ _ _ h => labelToAscii?_again h) hlabels
  have hapart : ∀ label ∈ labels, '.' ∉ label :=
    forall_of_mapM (fun part hpart _ h =>
      notMem_of_labelToAscii? h (Text.notMem_of_mem_splitOn hpart)) hlabels
  have hfilled : labels ≠ [] := by
    rintro rfl
    exact Text.splitOn_ne_nil '.' folded (List.length_eq_zero_iff.mp (length_of_mapM hlabels).symm)
  have hkept : (['.'].intercalate labels).all isKept := by
    refine List.all_eq_true.mpr fun c hc => ?_
    obtain rfl | ⟨label, hlabel, hc⟩ := Text.mem_intercalate hc
    · rfl
    · exact List.all_eq_true.mp (isKept_of_labelToAscii? (hagain label hlabel)) c hc
  refine domainToAscii?_eq_some.mpr ⟨['.'].intercalate labels, labels, ?_, ?_, rfl⟩
  · rw [foldDomain?, if_pos hname, lower_of_isKept hname hkept]
  · rw [Text.splitOn_intercalate hapart hfilled]
    exact mapM_eq_some_self hagain

theorem isKept_of_isDigit (h : c.isDigit) : c.toNat < 128 ∧ isKept c := by
  have hrange := Text.isDigit_iff.mp h
  have hascii : c.toNat < 128 := by omega
  refine ⟨hascii, (isKept_iff hascii).mpr fun hupper => ?_⟩
  have hcapital := Text.isUpper_iff.mp hupper
  omega

theorem labelToAscii?_of_digits (h : ∀ c ∈ label, c.isDigit) :
    labelToAscii? label = some label := by
  refine labelToAscii?_eq_some.mpr (.inl ⟨?_, ?_, fun hmark => ?_, rfl⟩)
  · exact isAscii_iff.mpr fun c hc => (isKept_of_isDigit (h c hc)).1
  · exact List.all_eq_true.mpr fun c hc => (isKept_of_isDigit (h c hc)).2
  · obtain ⟨rest, rfl⟩ := List.isPrefixOf_iff_prefix.mp hmark
    exact absurd (h 'x' List.mem_cons_self) (by decide)

/-- Digits and full stops stay as they are. -/
theorem domainToAscii?_of_digits (h : ∀ c ∈ cs, c.isDigit ∨ c = '.') :
    domainToAscii? cs = some cs := by
  have hlabels : (Text.splitOn '.' cs).mapM labelToAscii? = some (Text.splitOn '.' cs) := by
    refine mapM_eq_some_self fun label hlabel => labelToAscii?_of_digits fun c hc => ?_
    refine (h c (Text.mem_of_mem_splitOn hlabel hc)).resolve_right ?_
    rintro rfl
    exact Text.notMem_of_mem_splitOn hlabel hc
  have hplain : ∀ c ∈ cs, c.toNat < 128 ∧ isKept c := by
    intro c hc
    obtain hdigit | rfl := h c hc
    · exact isKept_of_isDigit hdigit
    · exact ⟨by decide, rfl⟩
  have hascii : isAscii cs := isAscii_iff.mpr fun c hc => (hplain c hc).1
  have hkept : cs.all isKept := List.all_eq_true.mpr fun c hc => (hplain c hc).2
  refine domainToAscii?_eq_some.mpr ⟨cs, _, ?_, hlabels, Text.intercalate_splitOn '.' cs⟩
  rw [foldDomain?, if_pos hascii, lower_of_isKept hascii hkept]

end Amqp.Url
