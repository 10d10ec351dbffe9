import Amqp.Proofs.Text.Split
import Amqp.Url.Host
import Mathlib.Data.List.Basic
import Mathlib.Data.List.Induction

/-!
# Addresses as hosts

A natural reads back from its digits, decimal or hexadecimal, and so does an address from the
numbers that it is written with: four bytes for version four, and pieces of sixteen bits with the
longest run of zeros left out for version six.
-/

namespace Amqp.Url

variable {base n a : Nat} {c : Char} {cs : List Char} {numbers : List Nat}

/-! ## Numbers -/

theorem hexValue?_digitChar : ∀ d < 16, hexValue? d.digitChar = some d := by decide

theorem valueInBase?_concat {value digit : Nat} (h : valueInBase? base cs = some value)
    (hc : hexValue? c = some digit) (hsmall : digit < base) :
    valueInBase? base (cs ++ [c]) = some (base * value + digit) := by
  rw [valueInBase?] at h ⊢
  rw [List.foldl_append, h, List.foldl_cons, List.foldl_nil, hc]
  exact if_pos hsmall

/-- A natural reads back from its digits. -/
theorem valueInBase?_toDigits (hlow : 1 < base) (hhigh : base ≤ 16) (n : Nat) :
    valueInBase? base (Nat.toDigits base n) = some n := by
  induction n using Nat.strongRecOn with
  | ind n ih =>
    by_cases hsmall : n < base
    · rw [Nat.toDigits_of_lt_base hsmall, ← List.nil_append [n.digitChar],
        valueInBase?_concat rfl (hexValue?_digitChar n (by omega)) hsmall, Nat.mul_zero,
        Nat.zero_add]
    · have hlast : n % base < base := Nat.mod_lt n (by omega)
      have hfront := ih (n / base) (Nat.div_lt_self (by omega) hlow)
      rw [Nat.toDigits_of_base_le hlow (by omega),
        valueInBase?_concat hfront (hexValue?_digitChar _ (by omega)) hlast, Nat.div_add_mod]

/-- Every digit is one of the base. -/
theorem exists_digit_of_mem_toDigits (hlow : 1 < base) (h : c ∈ Nat.toDigits base n) :
    ∃ d < base, c = d.digitChar := by
  induction n using Nat.strongRecOn with
  | ind n ih =>
    by_cases hsmall : n < base
    · rw [Nat.toDigits_of_lt_base hsmall, List.mem_singleton] at h
      exact ⟨n, hsmall, h⟩
    · rw [Nat.toDigits_of_base_le hlow (by omega), List.mem_append, List.mem_singleton] at h
      obtain h | h := h
      · exact ih (n / base) (Nat.div_lt_self (by omega) hlow) h
      · exact ⟨n % base, Nat.mod_lt n (by omega), h⟩

/-- A positive natural is written without zeros in front. -/
theorem head?_toDigits_ne (hlow : 1 < base) (hpos : n ≠ 0) :
    (Nat.toDigits base n).head? ≠ some '0' := by
  induction n using Nat.strongRecOn with
  | ind n ih =>
    by_cases hsmall : n < base
    · rw [Nat.toDigits_of_lt_base hsmall]
      simpa using hpos
    · have hfront : n / base ≠ 0 := (Nat.div_pos (by omega) (by omega)).ne'
      have hfirst := ih (n / base) (Nat.div_lt_self (by omega) hlow) hfront
      rw [Nat.toDigits_of_base_le hlow (by omega)]
      cases hdigits : Nat.toDigits base (n / base) with
      | nil => exact absurd hdigits Nat.toDigits_ne_nil
      | cons d ds =>
        rw [hdigits] at hfirst
        exact hfirst

theorem decimalText_eq (n : Nat) : decimalText n = Nat.toDigits 10 n := Nat.toList_repr

theorem decimalText_ne_nil (n : Nat) : decimalText n ≠ [] := by
  rw [decimalText_eq]
  exact Nat.toDigits_ne_nil

theorem isDigit_of_mem_decimalText (h : c ∈ decimalText n) : c.isDigit := by
  rw [decimalText_eq] at h
  exact Nat.isDigit_of_mem_toDigits (by decide) (by decide) h

theorem valueInBase?_decimalText (n : Nat) : valueInBase? 10 (decimalText n) = some n := by
  rw [decimalText_eq]
  exact valueInBase?_toDigits (by decide) (by decide) n

theorem hexText_ne_nil (n : Nat) : hexText n ≠ [] := Nat.toDigits_ne_nil

theorem mem_hexText (h : c ∈ hexText n) : c ∈ "0123456789abcdef".toList := by
  have hdigits : ∀ d < 16, d.digitChar ∈ "0123456789abcdef".toList := by decide
  obtain ⟨d, hd, rfl⟩ := exists_digit_of_mem_toDigits (by decide) h
  exact hdigits d hd

theorem valueInBase?_hexText (n : Nat) : valueInBase? 16 (hexText n) = some n :=
  valueInBase?_toDigits (by decide) (by decide) n

theorem length_hexText_le (h : n < 65536) : (hexText n).length ≤ 4 :=
  (Nat.length_toDigits_le_iff (by decide) (by decide)).mpr h

section

variable {α β : Type} {f : α → Option β} {xs : List α} {ys : List β}

theorem mapM_cons_eq_some {x : α} (h : (x :: xs).mapM f = some ys) :
    ∃ y rest, f x = some y ∧ xs.mapM f = some rest ∧ ys = y :: rest := by
  simp only [List.mapM_cons, Option.bind_eq_bind, Option.bind_eq_some_iff, Option.pure_def,
    Option.some_inj] at h
  obtain ⟨y, hy, rest, hrest, rfl⟩ := h
  exact ⟨y, rest, hy, hrest, rfl⟩

theorem length_of_mapM (h : xs.mapM f = some ys) : ys.length = xs.length := by
  induction xs generalizing ys with
  | nil =>
    rw [List.mapM_nil] at h
    rw [← Option.some_inj.mp h]
    rfl
  | cons x xs ih =>
    obtain ⟨y, rest, -, hrest, rfl⟩ := mapM_cons_eq_some h
    rw [List.length_cons, List.length_cons, ih hrest]

theorem forall_of_mapM {P : β → Prop} (hf : ∀ x ∈ xs, ∀ y, f x = some y → P y)
    (h : xs.mapM f = some ys) : ∀ y ∈ ys, P y := by
  induction xs generalizing ys with
  | nil =>
    rw [List.mapM_nil] at h
    obtain rfl := Option.some_inj.mp h
    exact fun _ hy => by cases hy
  | cons x xs ih =>
    obtain ⟨y, rest, hy, hrest, rfl⟩ := mapM_cons_eq_some h
    obtain ⟨hfirst, hmore⟩ := List.forall_mem_cons.mp hf
    exact List.forall_mem_cons.mpr ⟨hfirst y hy, ih hmore hrest⟩

/-- What is read back one by one is read back. -/
theorem mapM_map_eq_some {g : β → α} (h : ∀ y ∈ ys, f (g y) = some y) :
    (ys.map g).mapM f = some ys := by
  induction ys with
  | nil => rfl
  | cons y ys ih =>
    obtain ⟨hfirst, hmore⟩ := List.forall_mem_cons.mp h
    rw [List.map_cons, List.mapM_cons, hfirst, ih hmore]
    rfl

theorem mapM_eq_some_self {f : α → Option α} (h : ∀ x ∈ xs, f x = some x) :
    xs.mapM f = some xs := by
  have hread : (xs.map id).mapM f = some xs := mapM_map_eq_some h
  rwa [List.map_id] at hread

end

/-! ## Version four -/

theorem ipv4Number?_decimalText (n : Nat) : ipv4Number? (decimalText n) = some n := by
  have hvalue := valueInBase?_decimalText n
  rw [ipv4Number?.eq_def]
  split
  · rename_i hempty
    exact absurd hempty (decimalText_ne_nil n)
  · rename_i x rest hzero
    have hwritten : Nat.toDigits 10 n = '0' :: x :: rest := decimalText_eq n ▸ hzero
    by_cases hnone : n = 0
    · subst hnone
      cases hwritten
    · have hfirst : (Nat.toDigits 10 n).head? ≠ some '0' := head?_toDigits_ne (by decide) hnone
      exact absurd (by rw [hwritten]; rfl) hfirst
  · exact hvalue

section

variable {weight bound : Nat → Nat}

/-- The address of numbers, given what the number at each place counts and the bound for the last of
so many. Every number but the last is one byte. -/
def ipv4Value? (weight bound : Nat → Nat) (numbers : List Nat) : Option Nat :=
  numbers.getLast?.bind fun last =>
    if numbers.dropLast.any (255 < ·) then none
    else if bound numbers.length ≤ last then none
    else some (numbers.dropLast.zipIdx.foldl (fun a (n, i) => a + n * weight i) last)

theorem ipv4?_eq (cs : List Char) : ipv4? cs =
    if 4 < (domainParts cs).length then none
    else ((domainParts cs).mapM ipv4Number?).bind
      (ipv4Value? (fun i => Nat.pow 256 (3 - i)) (fun count => Nat.pow 256 (5 - count))) := by
  rw [ipv4?]
  split
  · rfl
  · rfl

/-- Every number but the last is a byte, and all of them make up the address. -/
theorem ipv4Value?_concat {front : List Nat} {last : Nat}
    (h : ipv4Value? weight bound (front ++ [last]) = some a) :
    (∀ n ∈ front, n ≤ 255) ∧ last < bound (front.length + 1) ∧
      front.zipIdx.foldl (fun a p => a + p.1 * weight p.2) last = a := by
  rw [ipv4Value?, List.getLast?_concat, Option.bind_some, List.dropLast_concat,
    List.length_append, List.length_singleton] at h
  obtain ⟨hbytes, h⟩ := Option.ite_none_left_eq_some.mp h
  obtain ⟨hfits, htotal⟩ := Option.ite_none_left_eq_some.mp h
  refine ⟨fun n hn => Nat.le_of_not_lt fun hlarge => hbytes ?_, Nat.lt_of_not_le hfits,
    Option.some_inj.mp htotal⟩
  exact List.any_eq_true.mpr ⟨n, hn, decide_eq_true hlarge⟩

/-- Four numbers at most make an address of four bytes. -/
theorem ipv4Value?_lt (hweight : weight 0 = 16777216 ∧ weight 1 = 65536 ∧ weight 2 = 256)
    (hbound : bound 1 = 4294967296 ∧ bound 2 = 16777216 ∧ bound 3 = 65536 ∧ bound 4 = 256)
    (hcount : numbers.length ≤ 4) (h : ipv4Value? weight bound numbers = some a) :
    a < 4294967296 := by
  obtain ⟨hw0, hw1, hw2⟩ := hweight
  obtain ⟨hb1, hb2, hb3, hb4⟩ := hbound
  obtain rfl | ⟨front, last, rfl⟩ := List.eq_nil_or_concat' numbers
  · cases h
  · obtain ⟨hbytes, hfits, htotal⟩ := ipv4Value?_concat h
    obtain _ | ⟨n1, _ | ⟨n2, _ | ⟨n3, _ | ⟨n4, rest⟩⟩⟩⟩ := front
    · change last = a at htotal
      change last < bound 1 at hfits
      omega
    · have h1 := hbytes n1 (by simp)
      change last + n1 * weight 0 = a at htotal
      change last < bound 2 at hfits
      rw [hw0] at htotal
      omega
    · have h1 := hbytes n1 (by simp)
      have h2 := hbytes n2 (by simp)
      change last + n1 * weight 0 + n2 * weight 1 = a at htotal
      change last < bound 3 at hfits
      rw [hw0, hw1] at htotal
      omega
    · have h1 := hbytes n1 (by simp)
      have h2 := hbytes n2 (by simp)
      have h3 := hbytes n3 (by simp)
      change last + n1 * weight 0 + n2 * weight 1 + n3 * weight 2 = a at htotal
      change last < bound 4 at hfits
      rw [hw0, hw1, hw2] at htotal
      omega
    · simp only [List.length_append, List.length_cons, List.length_nil] at hcount
      omega

/-- The bytes of an address make it up. -/
theorem ipv4Value?_bytes (hweight : weight 0 = 16777216 ∧ weight 1 = 65536 ∧ weight 2 = 256)
    (hbound : bound 4 = 256) (h : a < 4294967296) :
    ipv4Value? weight bound [a / 16777216, a / 65536 % 256, a / 256 % 256, a % 256] = some a := by
  obtain ⟨hw0, hw1, hw2⟩ := hweight
  have hbytes : ¬[a / 16777216, a / 65536 % 256, a / 256 % 256].any (255 < ·) := by
    simp only [List.any_cons, List.any_nil, Bool.or_false, Bool.or_eq_true, decide_eq_true_eq]
    omega
  have hfits : ¬bound 4 ≤ a % 256 := by omega
  change (if [a / 16777216, a / 65536 % 256, a / 256 % 256].any (255 < ·) then none
    else if bound 4 ≤ a % 256 then none
    else some (a % 256 + a / 16777216 * weight 0 + a / 65536 % 256 * weight 1 +
      a / 256 % 256 * weight 2)) = some a
  rw [if_neg hbytes, if_neg hfits, hw0, hw1, hw2]
  congr 1
  omega

end

-- The powers are put in only here: where they stand next to a number that is not known, comparing
-- them takes too long.

/-- What the number at a place counts. -/
theorem ipv4_weights : Nat.pow 256 (3 - 0) = 16777216 ∧ Nat.pow 256 (3 - 1) = 65536 ∧
    Nat.pow 256 (3 - 2) = 256 := by decide

/-- The bounds for the last number. -/
theorem ipv4_bounds : Nat.pow 256 (5 - 1) = 4294967296 ∧ Nat.pow 256 (5 - 2) = 16777216 ∧
    Nat.pow 256 (5 - 3) = 65536 ∧ Nat.pow 256 (5 - 4) = 256 := by decide

/-- An address has four bytes. -/
theorem ipv4?_lt (h : ipv4? cs = some a) : a < 4294967296 := by
  rw [ipv4?_eq] at h
  obtain ⟨hcount, h⟩ := Option.ite_none_left_eq_some.mp h
  obtain ⟨numbers, hread, hvalue⟩ := Option.bind_eq_some_iff.mp h
  have hlength := length_of_mapM hread
  exact ipv4Value?_lt ipv4_weights ipv4_bounds (by omega) hvalue

/-- Parts that are joined by full stops, with something behind the last of them. -/
theorem domainParts_intercalate {parts : List (List Char)} (hapart : ∀ part ∈ parts, '.' ∉ part)
    (hfilled : parts ≠ []) (hlast : parts.getLast? ≠ some []) :
    domainParts (['.'].intercalate parts) = parts := by
  rw [domainParts, Text.splitOn_intercalate hapart hfilled]
  exact if_neg fun h => hlast h.2

theorem mapM_ipv4Number? (numbers : List Nat) :
    (numbers.map decimalText).mapM ipv4Number? = some numbers :=
  mapM_map_eq_some fun n _ => ipv4Number?_decimalText n

/-- The bytes of an address. -/
def ipv4Bytes (a : Nat) : List Nat := [a / 16777216, a / 65536 % 256, a / 256 % 256, a % 256]

theorem getLast?_ipv4Bytes (a : Nat) :
    ((ipv4Bytes a).map decimalText).getLast? = some (decimalText (a % 256)) := rfl

theorem domainParts_ipv4 (a : Nat) :
    domainParts (Host.ipv4 a).chars = (ipv4Bytes a).map decimalText := by
  change domainParts (['.'].intercalate ((ipv4Bytes a).map decimalText)) = _
  refine domainParts_intercalate ?_ (List.cons_ne_nil _ _) ?_
  · intro part hpart hdot
    obtain ⟨n, -, rfl⟩ := List.mem_map.mp hpart
    exact absurd (isDigit_of_mem_decimalText hdot) (by decide)
  · rw [getLast?_ipv4Bytes]
    exact fun heq => decimalText_ne_nil _ (Option.some_inj.mp heq)

/-- An address reads back from its bytes. -/
theorem ipv4?_chars (h : a < 4294967296) : ipv4? (Host.ipv4 a).chars = some a := by
  have hcount : ¬4 < ((ipv4Bytes a).map decimalText).length := Nat.lt_irrefl 4
  rw [ipv4?_eq, domainParts_ipv4, mapM_ipv4Number?, if_neg hcount, Option.bind_some]
  refine ipv4Value?_bytes ?_ ?_ h
  · exact ipv4_weights
  · exact ipv4_bounds.2.2.2

theorem endsInNumber_ipv4 (a : Nat) : endsInNumber (Host.ipv4 a).chars = true := by
  have hdigits : (decimalText (a % 256)).all Char.isDigit :=
    List.all_eq_true.mpr fun c hc => isDigit_of_mem_decimalText hc
  rw [endsInNumber, domainParts_ipv4, getLast?_ipv4Bytes]
  simp only [hdigits, Bool.and_true, Bool.or_eq_true, bne_iff_ne]
  exact .inl (decimalText_ne_nil _)

theorem chars_ipv4_ne_nil (a : Nat) : (Host.ipv4 a).chars ≠ [] := by
  intro hempty
  have hnumber := endsInNumber_ipv4 a
  rw [hempty] at hnumber
  exact absurd hnumber (by decide)

/-- An address is written with digits and full stops. -/
theorem mem_ipv4 (h : c ∈ (Host.ipv4 a).chars) : c.isDigit ∨ c = '.' := by
  obtain rfl | ⟨part, hpart, hc⟩ := Text.mem_intercalate h
  · exact .inr rfl
  · obtain ⟨n, -, rfl⟩ := List.mem_map.mp hpart
    exact .inl (isDigit_of_mem_decimalText hc)

/-! ## Version six -/

/-- What stands before the first colon of a text is kept apart from the search behind it. -/
theorem splitCompressed_append {front : List Char} (h : ':' ∉ front) (rest : List Char) :
    splitCompressed (front ++ rest) =
      (splitCompressed rest).map fun (a, b) => (front ++ a, b) := by
  induction front with
  | nil =>
    rw [List.nil_append]
    exact Option.map_id'.symm
  | cons c front ih =>
    rw [List.mem_cons, not_or] at h
    rw [List.cons_append, splitCompressed, ih h.2, Option.map_map]
    · rfl
    · exact fun _ heq _ => h.1 heq.symm

/-- A single colon does not end the search. -/
theorem splitCompressed_colon (h : cs.head? ≠ some ':') :
    splitCompressed (':' :: cs) = (splitCompressed cs).map fun (a, b) => (':' :: a, b) := by
  rw [splitCompressed]
  rintro rest - rfl
  exact h rfl

theorem notMem_hexText {mark : Char} (h : mark = ':' ∨ mark = '.') (n : Nat) :
    mark ∉ hexText n := by
  intro hmark
  have hdigit := mem_hexText hmark
  obtain rfl | rfl := h <;> exact absurd hdigit (by decide)

variable {ps : List Nat} {p : Nat}

theorem colonText_cons_cons (p q : Nat) (ps : List Nat) :
    colonText (p :: q :: ps) = hexText p ++ ':' :: colonText (q :: ps) := by
  simp only [colonText, List.map_cons, List.intercalate_cons_cons, List.append_assoc,
    List.singleton_append]

theorem colonText_singleton (p : Nat) : colonText [p] = hexText p := List.intercalate_singleton

/-- The first piece stands in front. -/
theorem exists_colonText_cons (p : Nat) (ps : List Nat) :
    ∃ more, colonText (p :: ps) = hexText p ++ more := by
  cases ps with
  | nil => exact ⟨[], by rw [colonText_singleton, List.append_nil]⟩
  | cons q ps => exact ⟨_, colonText_cons_cons p q ps⟩

/-- No piece begins with a colon. -/
theorem head?_colonText (p : Nat) (ps : List Nat) (rest : List Char) :
    (colonText (p :: ps) ++ rest).head? ≠ some ':' := by
  obtain ⟨more, hfirst⟩ := exists_colonText_cons p ps
  rw [hfirst]
  cases hdigits : hexText p with
  | nil => exact absurd hdigits (hexText_ne_nil p)
  | cons d ds =>
    intro hcolon
    refine notMem_hexText (.inl rfl) p ?_
    rw [hdigits, ← Option.some_inj.mp hcolon]
    exact List.mem_cons_self

/-- The pair of colons behind pieces is the first one. -/
theorem splitCompressed_colonText (ps : List Nat) (rest : List Char) :
    splitCompressed (colonText ps ++ ':' :: ':' :: rest) = some (colonText ps, rest) := by
  induction ps with
  | nil => rfl
  | cons p ps ih =>
    have hdigits := notMem_hexText (.inl rfl) p
    cases ps with
    | nil =>
      rw [colonText_singleton, splitCompressed_append hdigits]
      simp [splitCompressed]
    | cons q ps =>
      rw [colonText_cons_cons, List.append_assoc, splitCompressed_append hdigits, List.cons_append,
        splitCompressed_colon (head?_colonText q ps _), ih]
      rfl

/-- Pieces alone hold no pair of colons. -/
theorem splitCompressed_colonText_eq_none (ps : List Nat) :
    splitCompressed (colonText ps) = none := by
  induction ps with
  | nil => rfl
  | cons p ps ih =>
    have hdigits := notMem_hexText (.inl rfl) p
    cases ps with
    | nil =>
      rw [colonText_singleton, ← List.append_nil (hexText p), splitCompressed_append hdigits]
      rfl
    | cons q ps =>
      have hhead := head?_colonText q ps []
      rw [List.append_nil] at hhead
      rw [colonText_cons_cons, splitCompressed_append hdigits, splitCompressed_colon hhead, ih]
      rfl

theorem partPieces?_hexText (isLast : Bool) (h : p < 65536) :
    partPieces? isLast (hexText p) = some [p] := by
  have hdots : (hexText p).contains '.' = false := by
    rw [List.contains_eq_mem, decide_eq_false_iff_not]
    exact notMem_hexText (.inr rfl) p
  have hlength := length_hexText_le h
  have hshort : ¬(hexText p = [] ∨ 4 < (hexText p).length) := by
    rw [not_or]
    exact ⟨hexText_ne_nil p, by omega⟩
  rw [partPieces?, hdots, if_neg Bool.false_ne_true, if_neg hshort, valueInBase?_hexText]
  rfl

theorem piecesOf?_map_hexText (h : ∀ p ∈ ps, p < 65536) :
    piecesOf? (ps.map hexText) = some ps := by
  induction ps with
  | nil => rfl
  | cons p ps ih =>
    have hfirst := h p List.mem_cons_self
    have hrest := ih fun q hq => h q (List.mem_cons_of_mem _ hq)
    cases ps with
    | nil => exact partPieces?_hexText true hfirst
    | cons q ps =>
      rw [List.map_cons] at hrest
      rw [List.map_cons, List.map_cons, piecesOf?, partPieces?_hexText false hfirst, hrest]
      · rfl
      · exact List.cons_ne_nil _ _

/-- Pieces read back from their text. -/
theorem pieces?_colonText (h : ∀ p ∈ ps, p < 65536) : pieces? (colonText ps) = some ps := by
  cases ps with
  | nil => rfl
  | cons p ps =>
    have hapart : ∀ part ∈ (p :: ps).map hexText, ':' ∉ part := by
      intro part hpart
      obtain ⟨q, -, rfl⟩ := List.mem_map.mp hpart
      exact notMem_hexText (.inl rfl) q
    have hfilled : (p :: ps).map hexText ≠ [] := List.cons_ne_nil _ _
    have htext : (colonText (p :: ps)).isEmpty = false := by
      obtain ⟨more, hfirst⟩ := exists_colonText_cons p ps
      rw [hfirst, List.isEmpty_eq_false_iff]
      exact List.append_ne_nil_of_left_ne_nil (hexText_ne_nil p) more
    rw [pieces?, htext, if_neg Bool.false_ne_true, colonText,
      Text.splitOn_intercalate hapart hfilled, piecesOf?_map_hexText h]

/-- The search for zeros, one place further. -/
def longerZeros (ps : List Nat) (best : Option (Nat × Nat)) (i : Nat) : Option (Nat × Nat) :=
  let n := zerosInFront (ps.drop i)
  match best with
  | some (_, m) => if m < n then some (i, n) else best
  | none => if 2 ≤ n then some (i, n) else none

theorem longestZeros_eq (ps : List Nat) :
    longestZeros ps = (List.range ps.length).foldl (longerZeros ps) none := rfl

/-- At least two zeros, and all those that stand at the place. -/
def AreZeros (ps : List Nat) (best : Option (Nat × Nat)) : Prop :=
  ∀ i n, best = some (i, n) → 2 ≤ n ∧ n = zerosInFront (ps.drop i)

theorem areZeros_longerZeros {best : Option (Nat × Nat)} (h : AreZeros ps best) (i : Nat) :
    AreZeros ps (longerZeros ps best i) := by
  intro j n hfound
  rw [longerZeros.eq_def] at hfound
  split at hfound
  · rename_i k m
    have htwo := (h k m rfl).1
    dsimp only at hfound
    split at hfound
    · injection hfound with hfound
      injection hfound with hplace hcount
      subst hplace hcount
      exact ⟨by omega, rfl⟩
    · exact h j n hfound
  · obtain ⟨htwo, hfound⟩ := Option.ite_none_right_eq_some.mp hfound
    injection hfound with hfound
    injection hfound with hplace hcount
    subst hplace hcount
    exact ⟨htwo, rfl⟩

theorem areZeros_longestZeros (ps : List Nat) : AreZeros ps (longestZeros ps) := by
  have hsearch (places : List Nat) (best : Option (Nat × Nat)) (h : AreZeros ps best) :
      AreZeros ps (places.foldl (longerZeros ps) best) := by
    induction places generalizing best with
    | nil => exact h
    | cons i places ih => exact ih _ (areZeros_longerZeros h i)
  rw [longestZeros_eq]
  exact hsearch _ none fun _ _ h => by cases h

/-- The zeros at a place, and what stands around them. -/
theorem eq_append_of_zerosInFront {i n : Nat} (h : n = zerosInFront (ps.drop i)) :
    ps = ps.take i ++ List.replicate n 0 ++ ps.drop (i + n) := by
  have hzeros : (ps.drop i).takeWhile (· == 0) = List.replicate n 0 := by
    rw [List.eq_replicate_iff]
    refine ⟨h.symm, fun p hp => ?_⟩
    have hzero : (p == 0) = true := List.mem_takeWhile_imp (p := (· == 0)) hp
    exact beq_iff_eq.mp hzero
  have hsplit : ps.drop i = List.replicate n 0 ++ (ps.drop i).dropWhile (· == 0) := by
    rw [← hzeros, List.takeWhile_append_dropWhile]
  have hrest : ps.drop (i + n) = (ps.drop i).dropWhile (· == 0) := by
    have hlater := congrArg (List.drop n) hsplit
    rwa [List.drop_drop, List.drop_left' List.length_replicate] at hlater
  rw [hrest, List.append_assoc, ← hsplit, List.take_append_drop]

/-- The text between the brackets. -/
def ipv6Text (ps : List Nat) : List Char :=
  match longestZeros ps with
  | none => colonText ps
  | some (i, n) => colonText (ps.take i) ++ ':' :: ':' :: colonText (ps.drop (i + n))

theorem chars_ipv6 (ps : List Nat) : (Host.ipv6 ps).chars = '[' :: (ipv6Text ps ++ [']']) := by
  cases hzeros : longestZeros ps with
  | none => simp only [Host.chars, ipv6Text, hzeros, List.cons_append]
  | some place => simp only [Host.chars, ipv6Text, hzeros, List.cons_append]

theorem mem_colonText (h : c ∈ colonText ps) : c ∈ ":0123456789abcdef".toList := by
  obtain rfl | ⟨part, hpart, hc⟩ := Text.mem_intercalate h
  · decide
  · obtain ⟨p, -, rfl⟩ := List.mem_map.mp hpart
    exact List.mem_cons_of_mem _ (mem_hexText hc)

/-- An address is written with digits and colons. -/
theorem mem_ipv6Text (h : c ∈ ipv6Text ps) : c ∈ ":0123456789abcdef".toList := by
  rw [ipv6Text] at h
  split at h
  · exact mem_colonText h
  · rw [List.mem_append, List.mem_cons, List.mem_cons] at h
    obtain h | rfl | rfl | h := h
    · exact mem_colonText h
    · decide
    · decide
    · exact mem_colonText h

/-- An address reads back from its text. -/
theorem ipv6?_ipv6Text (hcount : ps.length = 8) (hsmall : ∀ p ∈ ps, p < 65536) :
    ipv6? (ipv6Text ps) = some ps := by
  rw [ipv6Text]
  cases hzeros : longestZeros ps with
  | none =>
    simp only [ipv6?, splitCompressed_colonText_eq_none, pieces?_colonText hsmall,
      Option.bind_eq_bind, Option.bind_some, hcount, if_true]
  | some place =>
    obtain ⟨i, n⟩ := place
    obtain ⟨htwo, hall⟩ := areZeros_longestZeros ps i n hzeros
    have hsplit := eq_append_of_zerosInFront hall
    have hsizes : ps.length = (ps.take i).length + n + (ps.drop (i + n)).length := by
      have hlength := congrArg List.length hsplit
      rwa [List.length_append, List.length_append, List.length_replicate] at hlength
    have hfront : pieces? (colonText (ps.take i)) = some (ps.take i) :=
      pieces?_colonText fun p hp => hsmall p (List.mem_of_mem_take hp)
    have hback : pieces? (colonText (ps.drop (i + n))) = some (ps.drop (i + n)) :=
      pieces?_colonText fun p hp => hsmall p (List.mem_of_mem_drop hp)
    have hdots : (colonText (ps.take i)).contains '.' = false := by
      rw [List.contains_eq_mem, decide_eq_false_iff_not]
      exact fun hdot => absurd (mem_colonText hdot) (by decide)
    have hroom : (ps.take i).length + (ps.drop (i + n)).length < 8 := by omega
    have hleft : 8 - (ps.take i).length - (ps.drop (i + n)).length = n := by omega
    simp only [ipv6?, splitCompressed_colonText, hdots, Option.bind_eq_bind, hfront, hback,
      Option.bind_some, Bool.false_eq_true, if_false, if_pos hroom, hleft, ← hsplit]

/-- Digits write numbers below the power of the base with their count. -/
theorem valueInBase?_lt (h : valueInBase? base cs = some n) : n < Nat.pow base cs.length := by
  induction cs using List.reverseRecOn generalizing n with
  | nil =>
    rw [← Option.some_inj.mp h]
    exact Nat.zero_lt_one
  | append_singleton cs c ih =>
    rw [valueInBase?, List.foldl_append, List.foldl_cons, List.foldl_nil] at h
    split at h
    · rename_i m d hfront hdigit
      obtain ⟨hsmall, hvalue⟩ := Option.ite_none_right_eq_some.mp h
      have hbound := ih hfront
      rw [← Option.some_inj.mp hvalue, List.length_append, List.length_singleton]
      calc base * m + d < base * m + base := by omega
        _ = base * (m + 1) := (Nat.mul_succ base m).symm
        _ ≤ base * Nat.pow base cs.length := Nat.mul_le_mul_left base hbound
        _ = Nat.pow base cs.length * base := Nat.mul_comm _ _
    · contradiction

theorem ipv4Pieces?_lt (h : ipv4Pieces? cs = some ps) : ∀ p ∈ ps, p < 65536 := by
  simp only [ipv4Pieces?, Option.bind_eq_bind] at h
  split at h
  · cases h
  · obtain ⟨bytes, hread, hpieces⟩ := Option.bind_eq_some_iff.mp h
    have hsmall : ∀ n ∈ bytes, n ≤ 255 := by
      refine forall_of_mapM (fun part _ n hn => ?_) hread
      obtain ⟨-, hn⟩ := Option.ite_none_left_eq_some.mp hn
      obtain ⟨m, -, hm⟩ := Option.bind_eq_some_iff.mp hn
      obtain ⟨hbound, heq⟩ := Option.ite_none_right_eq_some.mp hm
      exact Option.some_inj.mp heq ▸ hbound
    split at hpieces
    · obtain rfl := Option.some_inj.mp hpieces
      simp only [List.forall_mem_cons] at hsmall ⊢
      obtain ⟨ha, hb, hc, hd, -⟩ := hsmall
      exact ⟨by omega, by omega, fun _ hp => by cases hp⟩
    · cases hpieces

theorem partPieces?_lt {isLast : Bool} (h : partPieces? isLast cs = some ps) :
    ∀ p ∈ ps, p < 65536 := by
  rw [partPieces?] at h
  split at h
  · obtain ⟨-, h⟩ := Option.ite_none_right_eq_some.mp h
    exact ipv4Pieces?_lt h
  · obtain ⟨hshort, h⟩ := Option.ite_none_left_eq_some.mp h
    obtain ⟨n, hvalue, rfl⟩ := Option.map_eq_some_iff.mp h
    have hbound := valueInBase?_lt hvalue
    have hpower : Nat.pow 16 cs.length ≤ Nat.pow 16 4 := Nat.pow_le_pow_right (by decide) (by omega)
    intro p hp
    obtain rfl := List.mem_singleton.mp hp
    exact Nat.lt_of_lt_of_le hbound hpower

theorem piecesOf?_lt {parts : List (List Char)} (h : piecesOf? parts = some ps) :
    ∀ p ∈ ps, p < 65536 := by
  induction parts generalizing ps with
  | nil =>
    obtain rfl := Option.some_inj.mp h
    exact fun _ hp => by cases hp
  | cons part parts ih =>
    cases parts with
    | nil => exact partPieces?_lt h
    | cons next parts =>
      rw [piecesOf?] at h
      · simp only [Option.bind_eq_bind, Option.bind_eq_some_iff, Option.pure_def,
          Option.some_inj] at h
        obtain ⟨first, hfirst, rest, hrest, rfl⟩ := h
        intro p hp
        obtain hp | hp := List.mem_append.mp hp
        · exact partPieces?_lt hfirst p hp
        · exact ih hrest p hp
      · exact List.cons_ne_nil _ _

theorem pieces?_lt (h : pieces? cs = some ps) : ∀ p ∈ ps, p < 65536 := by
  rw [pieces?] at h
  split at h
  · obtain rfl := Option.some_inj.mp h
    exact fun _ hp => by cases hp
  · exact piecesOf?_lt h

/-- An address has eight pieces of sixteen bits. -/
theorem ipv6?_wellFormed (h : ipv6? cs = some ps) : ps.length = 8 ∧ ∀ p ∈ ps, p < 65536 := by
  rw [ipv6?] at h
  split at h
  · simp only [Option.bind_eq_bind, Option.bind_eq_some_iff] at h
    obtain ⟨all, hread, h⟩ := h
    obtain ⟨hcount, heq⟩ := Option.ite_none_right_eq_some.mp h
    obtain rfl := Option.some_inj.mp heq
    exact ⟨hcount, pieces?_lt hread⟩
  · rename_i a b hcompressed
    simp only [Option.bind_eq_bind] at h
    split at h
    · cases h
    · simp only [Option.bind_eq_some_iff] at h
      obtain ⟨front, hfront, back, hback, h⟩ := h
      obtain ⟨hroom, heq⟩ := Option.ite_none_right_eq_some.mp h
      obtain rfl := Option.some_inj.mp heq
      constructor
      · simp only [List.length_append, List.length_replicate]
        omega
      · intro p hp
        rw [List.mem_append, List.mem_append] at hp
        obtain (hp | hp) | hp := hp
        · exact pieces?_lt hfront p hp
        · rw [List.eq_of_mem_replicate hp]
          decide
        · exact pieces?_lt hback p hp

end Amqp.Url
