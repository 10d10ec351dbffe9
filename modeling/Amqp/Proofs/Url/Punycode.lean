import Amqp.Proofs.Url.Address
import Mathlib.Data.List.InsertIdx

/-!
# Encoded labels are read again

A reader of an encoded label inserts its characters in the order in which they are written: for each
code point, smallest first, from left to right. What is between the reader and the next character is
the delta that is written.
-/

namespace Amqp.Url.Punycode

variable {bias k q fuel : Nat} {c : Char} {label : List Char}

/-! ## What is written -/

/-- The digits. -/
def digits : List Char := (List.range 36).map digit

theorem digit_mem {d : Nat} (h : d < 36) : digit d ∈ digits :=
  List.mem_map_of_mem (List.mem_range.mpr h)

theorem threshold_bounds (k bias : Nat) : 1 ≤ threshold k bias ∧ threshold k bias ≤ 26 := by
  rw [threshold]
  split
  · omega
  · split <;> omega

/-- A digit that is not the last one of its delta is below thirty-six, and less is left. -/
theorem digit_bound (h : threshold k bias ≤ q) (hfuel : q ≤ fuel + 1) :
    threshold k bias + (q - threshold k bias) % (36 - threshold k bias) < 36 ∧
      (q - threshold k bias) / (36 - threshold k bias) ≤ fuel := by
  obtain ⟨hlow, hhigh⟩ := threshold_bounds k bias
  have hmod : (q - threshold k bias) % (36 - threshold k bias) < 36 - threshold k bias :=
    Nat.mod_lt _ (by omega)
  have hdiv := Nat.div_le_self (q - threshold k bias) (36 - threshold k bias)
  omega

/-- A delta is written with digits. -/
theorem mem_encodeDelta (h : q ≤ fuel) (hc : c ∈ encodeDelta bias fuel q k) : c ∈ digits := by
  induction fuel generalizing q k with
  | zero =>
    obtain rfl := Nat.le_zero.mp h
    rw [encodeDelta, List.mem_singleton] at hc
    exact hc ▸ digit_mem (by decide)
  | succ fuel ih =>
    rw [encodeDelta] at hc
    split at hc
    · rename_i hlast
      obtain rfl := List.mem_singleton.mp hc
      have hhigh := (threshold_bounds k bias).2
      exact digit_mem (by omega)
    · rename_i hmore
      obtain ⟨hdigit, hrest⟩ := digit_bound (Nat.le_of_not_lt hmore) h
      obtain rfl | hc := List.mem_cons.mp hc
      · exact digit_mem hdigit
      · exact ih hrest hc

theorem mem_insertAll {basic n : Nat} {p : Progress} (h : c ∈ (insertAll basic n label p).written) :
    c ∈ p.written ∨ c ∈ digits := by
  rw [insertAll] at h
  induction label generalizing p with
  | nil => exact .inl h
  | cons d label ih =>
    rw [List.foldl_cons] at h
    obtain h | h := ih h
    · split at h
      · exact .inl h
      · split at h
        · obtain h | h := List.mem_append.mp h
          · exact .inl h
          · exact .inr (mem_encodeDelta (Nat.le_succ _) h)
        · exact .inl h
    · exact .inr h

theorem mem_insertFrom {basic n : Nat} {p : Progress}
    (h : c ∈ insertFrom basic label fuel n p) : c ∈ p.written ∨ c ∈ digits := by
  induction fuel generalizing n p with
  | zero => exact .inl h
  | succ fuel ih =>
    rw [insertFrom] at h
    split at h
    · exact .inl h
    · rename_i m _
      let walked := insertAll basic m label { p with delta := p.delta + (m - n) * (p.handled + 1) }
      obtain h | h := ih h
      · have hwalked : c ∈ walked.written := h
        have hbefore := mem_insertAll hwalked
        exact hbefore
      · exact .inr h

/-- A label is written with its characters in ASCII, digits and hyphens. -/
theorem mem_encode (h : c ∈ encode label) : c ∈ label ∧ c.toNat < 128 ∨ c ∈ digits ∨ c = '-' := by
  rw [encode] at h
  split at h
  · rename_i hascii
    exact .inl ⟨h, of_decide_eq_true (List.all_eq_true.mp hascii c h)⟩
  · rw [List.mem_append, List.mem_append] at h
    obtain (h | h) | h := h
    · have hmark : "xn--".toList.all fun c => digits.contains c || c == '-' := rfl
      have hc := List.all_eq_true.mp hmark c h
      rw [Bool.or_eq_true, List.contains_iff_mem, beq_iff_eq] at hc
      exact .inr hc
    · split at h
      · cases h
      · rw [List.mem_append, List.mem_singleton, List.mem_filter, decide_eq_true_eq] at h
        exact h.imp_right .inr
    · obtain h | h := mem_insertFrom h
      · cases h
      · exact .inr (.inl h)

/-! ## Reading a delta -/

theorem digitValue?_digit : ∀ d < 36, digitValue? (digit d) = some d := by decide

/-- A delta is read from its digits, whatever follows. -/
theorem decodeDelta?_encodeDelta (h : q ≤ fuel) (w i : Nat) (more : List Char) :
    decodeDelta? bias (encodeDelta bias fuel q k ++ more) k w i = some (i + q * w, more) := by
  induction fuel generalizing q k w i with
  | zero =>
    obtain rfl := Nat.le_zero.mp h
    have hlow : 0 < threshold k bias := (threshold_bounds k bias).1
    rw [encodeDelta, List.singleton_append, decodeDelta?, digitValue?_digit 0 (by decide)]
    exact if_pos hlow
  | succ fuel ih =>
    obtain ⟨hlow, hhigh⟩ := threshold_bounds k bias
    rw [encodeDelta]
    split
    · rename_i hlast
      rw [List.singleton_append, decodeDelta?, digitValue?_digit q (by omega)]
      exact if_pos hlast
    · rename_i hmore
      obtain ⟨hdigit, hrest⟩ := digit_bound (Nat.le_of_not_lt hmore) h
      have hnext : ¬threshold k bias + (q - threshold k bias) % (36 - threshold k bias) <
          threshold k bias := by
        omega
      rw [List.cons_append, decodeDelta?, digitValue?_digit _ hdigit]
      dsimp only
      rw [if_neg hnext, ih hrest]
      generalize ht : threshold k bias = t at *
      have hsum : q = t + (q - t) % (36 - t) + (36 - t) * ((q - t) / (36 - t)) := by
        have hparts := Nat.mod_add_div (q - t) (36 - t)
        omega
      refine congrArg some (Prod.ext ?_ rfl)
      calc i + (t + (q - t) % (36 - t)) * w + (q - t) / (36 - t) * (w * (36 - t))
          = i + (t + (q - t) % (36 - t) + (36 - t) * ((q - t) / (36 - t))) * w := by
            rw [Nat.add_mul _ ((36 - t) * _), Nat.mul_comm (36 - t), Nat.mul_comm w, Nat.mul_assoc,
              Nat.add_assoc]
        _ = i + q * w := by rw [← hsum]

/-- What the first delta of a text does. -/
theorem decodeFrom?_of_decodeDelta? {n i j : Nat} {points : List Nat} {cs left : List Char}
    (h : decodeDelta? bias cs 36 1 i = some (j, left)) :
    decodeFrom? bias n i points cs =
      decodeFrom? (adapt (j - i) (points.length + 1) (i == 0)) (n + j / (points.length + 1))
        (j % (points.length + 1) + 1)
        (points.insertIdx (j % (points.length + 1)) (n + j / (points.length + 1))) left := by
  cases cs with
  | nil => cases h
  | cons c rest =>
    rw [decodeFrom?]
    split
    · rename_i hnone
      rw [h] at hnone
      cases hnone
    · rename_i j' left' hsome
      rw [h] at hsome
      obtain ⟨rfl, rfl⟩ := Prod.mk.inj (Option.some.inj hsome)
      rfl

/-- What is inserted behind the first part of a list stands between the parts. -/
theorem insertIdx_length_append (xs ys : List Nat) (n : Nat) :
    (xs ++ ys).insertIdx xs.length n = xs ++ n :: ys := by
  induction xs with
  | nil => rfl
  | cons x xs ih =>
    rw [List.cons_append, List.length_cons, List.insertIdx_succ_cons, ih, List.cons_append]

/-! ## Reading what is written so far -/

/-- What is written makes a reader that begins with `start` come to `points`, and the delta brings
it to the place `place` for the code point `m`. -/
structure ReadsTo (start points : List Nat) (m place : Nat) (p : Progress) : Prop where
  handled : p.handled = points.length
  grown : start.length ≤ points.length
  reads : ∃ n i, p.delta + i + n * (p.handled + 1) = m * (p.handled + 1) + place ∧
    (i == 0) = (p.handled == start.length) ∧
    ∀ more, decodeFrom? 72 128 0 start (p.written ++ more) = decodeFrom? p.bias n i points more

variable {start points : List Nat} {m place : Nat} {p : Progress}

/-- A character that is there already is passed. -/
theorem ReadsTo.skip (h : ReadsTo start points m place p) :
    ReadsTo start points m (place + 1) { p with delta := p.delta + 1 } := by
  obtain ⟨n, i, hdelta, hfirst, hreads⟩ := h.reads
  refine ⟨h.handled, h.grown, n, i, ?_, hfirst, hreads⟩
  simp only
  omega

/-- A character that is written is inserted in its place. -/
theorem ReadsTo.insert (h : ReadsTo start points m place p) (hplace : place ≤ points.length) :
    ReadsTo start (points.insertIdx place m) m (place + 1)
      { delta := 0, bias := adapt p.delta (p.handled + 1) (p.handled == start.length),
        handled := p.handled + 1,
        written := p.written ++ encodeDelta p.bias (p.delta + 1) p.delta 36 } := by
  obtain ⟨n, i, hdelta, hfirst, hreads⟩ := h.reads
  have hcount : 0 < points.length + 1 := Nat.succ_pos _
  have hlength : (points.insertIdx place m).length = points.length + 1 :=
    List.length_insertIdx_of_le_length hplace m
  rw [h.handled] at hdelta hfirst
  -- What the reader counts up to is one round over all places for each code point it passes, and
  -- the place in the last round.
  have hsplit : i + p.delta * 1 + n * (points.length + 1) = place + m * (points.length + 1) := by
    omega
  have hpoint : n + (i + p.delta * 1) / (points.length + 1) = m := by
    rw [Nat.add_comm, ← Nat.add_mul_div_right _ _ hcount, hsplit, Nat.add_mul_div_right _ _ hcount,
      Nat.div_eq_of_lt (by omega), Nat.zero_add]
  have hindex : (i + p.delta * 1) % (points.length + 1) = place := by
    rw [← Nat.add_mul_mod_self_right _ n, hsplit, Nat.add_mul_mod_self_right,
      Nat.mod_eq_of_lt (by omega)]
  refine ⟨?_, ?_, m, place + 1, ?_, ?_, fun more => ?_⟩
  · rw [hlength, h.handled]
  · exact hlength ▸ h.grown.trans (Nat.le_succ _)
  · simp only
    omega
  · have hgrown := h.grown
    have hmore : p.handled + 1 ≠ start.length := by
      rw [h.handled]
      omega
    rw [beq_false_of_ne hmore, beq_false_of_ne (Nat.succ_ne_zero place)]
  · have hdecode : decodeDelta? p.bias
        (encodeDelta p.bias (p.delta + 1) p.delta 36 ++ more) 36 1 i =
          some (i + p.delta * 1, more) :=
      decodeDelta?_encodeDelta (Nat.le_succ p.delta) 1 i more
    rw [List.append_assoc, hreads, decodeFrom?_of_decodeDelta? hdecode, hpoint, hindex, hfirst,
      h.handled, Nat.mul_one, Nat.add_sub_cancel_left]

/-- The delta makes up for the code points that no character has. -/
theorem ReadsTo.advance {n : Nat} (h : ReadsTo start points n 0 p) (hle : n ≤ m) :
    ReadsTo start points m 0 { p with delta := p.delta + (m - n) * (p.handled + 1) } := by
  obtain ⟨n', i, hdelta, hfirst, hreads⟩ := h.reads
  refine ⟨h.handled, h.grown, n', i, ?_, hfirst, hreads⟩
  have hsum : (m - n) * (p.handled + 1) + n * (p.handled + 1) = m * (p.handled + 1) := by
    rw [← Nat.add_mul, Nat.sub_add_cancel hle]
  simp only
  omega

/-- The place behind all characters is the first place for the next code point. -/
theorem ReadsTo.next (h : ReadsTo start points m points.length p) :
    ReadsTo start points (m + 1) 0 { p with delta := p.delta + 1 } := by
  obtain ⟨n, i, hdelta, hfirst, hreads⟩ := h.reads
  refine ⟨h.handled, h.grown, n, i, ?_, hfirst, hreads⟩
  have hcount := h.handled
  rw [Nat.add_mul]
  simp only
  omega

/-! ## Walking over a label -/

/-- The walk for a code point `m` inserts it wherever it stands. Behind the walk, in `front`, all
characters up to `m` are there, and before it, in `rest`, those below `m`. -/
theorem ReadsTo.insertAll (front : List Char) {rest : List Char}
    (h : ReadsTo start
      ((front.filter (·.toNat ≤ m) ++ rest.filter (·.toNat < m)).map Char.toNat) m
      (front.filter (·.toNat ≤ m)).length p) :
    ReadsTo start (((front ++ rest).filter (·.toNat ≤ m)).map Char.toNat) m
      ((front ++ rest).filter (·.toNat ≤ m)).length (insertAll start.length m rest p) := by
  induction rest generalizing front p with
  | nil => simpa [Punycode.insertAll] using h
  | cons c rest ih =>
    -- The character that the walk passes goes over from `rest` to `front`.
    rw [List.append_cons, Punycode.insertAll, List.foldl_cons]
    refine ih (front ++ [c]) ?_
    obtain hc | rfl | hc := Nat.lt_trichotomy c.toNat m
    · simpa [hc, hc.le] using h.skip
    · have hplace : (front.filter (·.toNat ≤ c.toNat)).length ≤
          ((front.filter (·.toNat ≤ c.toNat) ++ rest.filter (·.toNat < c.toNat)).map
            Char.toNat).length := by
        simp
      have hinserted := insertIdx_length_append ((front.filter (·.toNat ≤ c.toNat)).map Char.toNat)
        ((rest.filter (·.toNat < c.toNat)).map Char.toNat) c.toNat
      rw [List.length_map] at hinserted
      simp only [List.filter_cons, Nat.lt_irrefl, decide_false, Bool.false_eq_true, if_false] at h
      simpa [hinserted] using h.insert hplace
    · simpa [Nat.not_lt.mpr hc.le, Nat.ne_of_gt hc, Nat.not_le.mpr hc] using h

/-- All characters below a code point are written when the walks come to it; there they are read,
and so are the others in the walks that follow. -/
theorem decodeFrom?_insertFrom {n : Nat}
    (h : ReadsTo start ((label.filter (·.toNat < n)).map Char.toNat) n 0 p)
    (hfuel : (label.filter (n ≤ ·.toNat)).length < fuel) :
    decodeFrom? 72 128 0 start (insertFrom start.length label fuel n p) =
      some (label.map Char.toNat) := by
  induction fuel generalizing n p with
  | zero => exact absurd hfuel (Nat.not_lt_zero _)
  | succ fuel ih =>
    rw [insertFrom]
    split
    · rename_i hnone
      rw [List.min?_eq_none_iff, List.map_eq_nil_iff, List.filter_eq_nil_iff] at hnone
      have hall : label.filter (·.toNat < n) = label := by
        refine List.filter_eq_self.mpr fun c hc => ?_
        have hbelow := hnone c hc
        rw [decide_eq_true_eq] at hbelow ⊢
        omega
      obtain ⟨m, i, -, -, hreads⟩ := h.reads
      have hend := hreads []
      rw [List.append_nil, decodeFrom?, hall] at hend
      exact hend
    · rename_i m hmin
      obtain ⟨hmem, hleast⟩ := List.min?_eq_some_iff.mp hmin
      obtain ⟨c, hc, rfl⟩ := List.mem_map.mp hmem
      have hle := of_decide_eq_true (List.mem_filter.mp hc).2
      have hbelow : label.filter (·.toNat < n) = label.filter (·.toNat < c.toNat) := by
        refine List.filter_congr fun d hd => decide_eq_decide.mpr ?_
        refine ⟨fun hlt => hlt.trans_le hle, fun hlt => Nat.lt_of_not_le fun hge => ?_⟩
        have hfound : d ∈ label.filter (n ≤ ·.toNat) :=
          List.mem_filter.mpr ⟨hd, decide_eq_true hge⟩
        exact absurd (hleast d.toNat (List.mem_map_of_mem hfound)) (Nat.not_le.mpr hlt)
      rw [hbelow] at h
      have hwalked := ReadsTo.insertAll [] (h.advance hle)
      rw [List.nil_append, ← List.length_map Char.toNat] at hwalked
      refine ih ?_ ?_
      · simpa only [Nat.lt_succ_iff] using hwalked.next
      · have hfewer : (label.filter (c.toNat + 1 ≤ ·.toNat)).length <
            (label.filter (n ≤ ·.toNat)).length := by
          have hlater : label.filter (c.toNat + 1 ≤ ·.toNat) =
              (label.filter (n ≤ ·.toNat)).filter (c.toNat + 1 ≤ ·.toNat) := by
            rw [List.filter_filter]
            refine List.filter_congr fun d _ => ?_
            rw [← Bool.decide_and]
            exact decide_eq_decide.mpr (by omega)
          rw [hlater, List.length_filter_lt_length_iff_exists]
          exact ⟨c, hc, by simp⟩
        omega

/-! ## Splitting at the last hyphen -/

theorem takeWhile_reverse {code : List Char} (h : '-' ∉ code) (more : List Char) :
    (code.reverse ++ more).takeWhile (· != '-') = code.reverse ++ more.takeWhile (· != '-') := by
  refine List.takeWhile_append_of_pos fun c hc => bne_iff_ne.mpr ?_
  rintro rfl
  exact h (List.mem_reverse.mp hc)

/-- What stands behind the last hyphen are the digits. -/
theorem decode?_append {ascii code : List Char} (h : '-' ∉ code) :
    decode? (ascii ++ '-' :: code) =
      (decodeFrom? 72 128 0 (ascii.map Char.toNat) code).bind fun points =>
        points.mapM charOf? := by
  have hcode : ((ascii ++ '-' :: code).reverse.takeWhile (· != '-')).reverse = code := by
    rw [List.reverse_append, List.reverse_cons, List.append_assoc, takeWhile_reverse h]
    simp
  have hcount : (ascii ++ '-' :: code).length - code.length = (ascii ++ ['-']).length := by
    rw [List.length_append, List.length_cons, List.length_append, List.length_singleton]
    omega
  have hascii : ((ascii ++ '-' :: code).take (ascii ++ ['-']).length).dropLast = ascii := by
    rw [List.append_cons ascii '-' code, List.take_left, List.dropLast_concat]
  rw [decode?, hcode, hcount, hascii]

/-- Without a hyphen there are digits only. -/
theorem decode?_of_notMem {code : List Char} (h : '-' ∉ code) :
    decode? code = (decodeFrom? 72 128 0 [] code).bind fun points => points.mapM charOf? := by
  have hcode := takeWhile_reverse h []
  rw [List.takeWhile_nil, List.append_nil] at hcode
  rw [decode?, hcode, List.reverse_reverse, Nat.sub_self]
  rfl

theorem charOf?_toNat (c : Char) : charOf? c.toNat = some c := by
  have hvalid : c.toNat.isValidChar := c.valid
  rw [charOf?, if_pos hvalid, Char.ofNat_toNat]

/-- A label with characters beyond ASCII is read again from what is written behind its mark. -/
theorem decode?_encode (h : ¬label.all (·.toNat < 128)) :
    ∃ code, encode label = "xn--".toList ++ code ∧ decode? code = some label := by
  let ascii := label.filter (·.toNat < 128)
  let code := insertFrom ascii.length label (label.length + 1) 128 ⟨0, 72, ascii.length, []⟩
  have hhyphen : '-' ∉ code := by
    intro hmem
    obtain hmem | hmem := mem_insertFrom hmem
    · cases hmem
    · exact absurd hmem (by decide)
  have hstart : ReadsTo (ascii.map Char.toNat) (ascii.map Char.toNat) 128 0
      ⟨0, 72, ascii.length, []⟩ :=
    ⟨(List.length_map _).symm, le_rfl, 128, 0, by simp, by simp, fun _ => rfl⟩
  have hread : decodeFrom? 72 128 0 (ascii.map Char.toNat) code = some (label.map Char.toNat) := by
    have hfuel : (label.filter (128 ≤ ·.toNat)).length < label.length + 1 :=
      Nat.lt_succ_of_le (List.length_filter_le _ _)
    have hread := decodeFrom?_insertFrom hstart hfuel
    rw [List.length_map] at hread
    exact hread
  refine ⟨(if ascii.isEmpty then [] else ascii ++ ['-']) ++ code, ?_, ?_⟩
  · rw [encode, if_neg h, List.append_assoc]
  · split
    · rename_i hempty
      rw [List.isEmpty_iff.mp hempty, List.map_nil] at hread
      rw [List.nil_append, decode?_of_notMem hhyphen, hread]
      exact mapM_map_eq_some fun c _ => charOf?_toNat c
    · rw [List.append_assoc, List.singleton_append, decode?_append hhyphen, hread]
      exact mapM_map_eq_some fun c _ => charOf?_toNat c

end Amqp.Url.Punycode
