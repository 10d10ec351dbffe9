/-!
# Labels in ASCII

A label of a domain with characters beyond ASCII is written in ASCII letters and digits: the ASCII
characters first, and then where the others are to be inserted, in the order of their code points.
`encode` writes a label in this way, with its mark in front, and `decode?` reads what stands behind
the mark. The numbers have no bound, and where one is too great for a code point, there is no label.
-/

namespace Amqp.Url.Punycode

/-- Digits to base thirty-six. -/
def digit (d : Nat) : Char := if d < 26 then Char.ofNat (97 + d) else Char.ofNat (22 + d)

/-- The threshold of the digit at position `k`, in steps of thirty-six. -/
def threshold (k bias : Nat) : Nat := if k ≤ bias then 1 else if bias + 26 ≤ k then 26 else k - bias

/-- Scales a delta down, counting the steps. -/
def scale : Nat → Nat → Nat → Nat
  | 0, _, k => k
  | fuel + 1, delta, k =>
    if 455 < delta then scale fuel (delta / 35) (k + 36) else k + 36 * delta / (delta + 38)

/-- The bias after a delta. -/
def adapt (delta count : Nat) (first : Bool) : Nat :=
  let delta := if first then delta / 700 else delta / 2
  let delta := delta + delta / count
  scale delta delta 0

/-- A delta in digits of variable weight. -/
def encodeDelta (bias : Nat) : Nat → Nat → Nat → List Char
  | 0, q, _ => [digit q]
  | fuel + 1, q, k =>
    let t := threshold k bias
    if q < t then [digit q]
    else digit (t + (q - t) % (36 - t)) :: encodeDelta bias fuel ((q - t) / (36 - t)) (k + 36)

/-- What is known while the characters with one code point are inserted. -/
structure Progress where
  delta : Nat
  bias : Nat
  /-- How many characters are written so far. -/
  handled : Nat
  written : List Char

/-- Walks over the label once for the code point `n`. -/
def insertAll (basic n : Nat) (label : List Char) (p : Progress) : Progress :=
  label.foldl (fun p c =>
    if c.toNat < n then { p with delta := p.delta + 1 }
    else if c.toNat = n then
      { delta := 0, bias := adapt p.delta (p.handled + 1) (p.handled == basic),
        handled := p.handled + 1,
        written := p.written ++ encodeDelta p.bias (p.delta + 1) p.delta 36 }
    else p) p

/-- Inserts the code points from `n` on, smallest first. -/
def insertFrom (basic : Nat) (label : List Char) : Nat → Nat → Progress → List Char
  | 0, _, p => p.written
  | fuel + 1, n, p =>
    match (label.filter (n ≤ ·.toNat)).map Char.toNat |>.min? with
    | none => p.written
    | some m =>
      let p := insertAll basic m label { p with delta := p.delta + (m - n) * (p.handled + 1) }
      insertFrom basic label fuel (m + 1) { p with delta := p.delta + 1 }

/-- The label in ASCII. -/
def encode (label : List Char) : List Char :=
  if label.all (·.toNat < 128) then label
  else
    let ascii := label.filter (·.toNat < 128)
    let start := if ascii.isEmpty then [] else ascii ++ ['-']
    "xn--".toList ++ start ++
      insertFrom ascii.length label (label.length + 1) 128 ⟨0, 72, ascii.length, []⟩

/-- The value of a digit to base thirty-six. -/
def digitValue? (c : Char) : Option Nat :=
  if 'a' ≤ c ∧ c ≤ 'z' then some (c.toNat - 97)
  else if c.isDigit then some (c.toNat - 22)
  else none

/-- Reads one delta onto `i`: the digit at position `k` counts `w`. -/
def decodeDelta? (bias : Nat) : List Char → Nat → Nat → Nat → Option (Nat × List Char)
  | [], _, _, _ => none
  | c :: rest, k, w, i =>
    match digitValue? c with
    | none => none
    | some d =>
      let t := threshold k bias
      if d < t then some (i + d * w, rest)
      else decodeDelta? bias rest (k + 36) (w * (36 - t)) (i + d * w)

/-- A delta has at least one digit. -/
theorem length_of_decodeDelta? (bias : Nat) : ∀ (cs : List Char) (k w i : Nat)
    (r : Nat × List Char), decodeDelta? bias cs k w i = some r → r.2.length < cs.length
  | [], _, _, _, _, h => by simp [decodeDelta?] at h
  | c :: rest, k, w, i, r, h => by
    rw [decodeDelta?] at h
    split at h
    · simp at h
    · dsimp only at h
      split at h
      · simp [← Option.some.inj h]
      · have hless := length_of_decodeDelta? bias rest (k + 36) _ _ r h
        simp only [List.length_cons]
        omega

/-- Inserts a character for each delta into the code points, from `n` and the place `i` on. -/
def decodeFrom? (bias n i : Nat) (points : List Nat) (cs : List Char) : Option (List Nat) :=
  match cs with
  | [] => some points
  | c :: rest =>
    match _h : decodeDelta? bias (c :: rest) 36 1 i with
    | none => none
    | some (j, left) =>
      let count := points.length + 1
      let n := n + j / count
      decodeFrom? (adapt (j - i) count (i == 0)) n (j % count + 1)
        (points.insertIdx (j % count) n) left
termination_by cs.length
decreasing_by
  have hless := length_of_decodeDelta? bias (c :: rest) 36 1 i _ _h
  simpa using hless

/-- The character with that code point, if there is one. -/
def charOf? (n : Nat) : Option Char := if n.isValidChar then some (Char.ofNat n) else none

/-- The label that stands behind a mark; what is left of the last hyphen is there as it is. -/
def decode? (cs : List Char) : Option (List Char) :=
  let digits := (cs.reverse.takeWhile (· != '-')).reverse
  let ascii := (cs.take (cs.length - digits.length)).dropLast
  (decodeFrom? 72 128 0 (ascii.map Char.toNat) digits).bind fun points => points.mapM charOf?

end Amqp.Url.Punycode
