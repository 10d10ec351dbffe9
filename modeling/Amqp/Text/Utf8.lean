/-!
# Strict UTF-8

`encode` writes every scalar value in its one shortest form, and `decode?` reads exactly such forms:
no overlong form, no surrogate, nothing above U+10FFFF and no truncated sequence passes. A leading
byte order mark is an ordinary character to both.
-/

namespace Amqp.Utf8

/-- The bytes of one scalar value. -/
def encodeChar (c : Char) : List UInt8 :=
  let v := c.toNat
  if v < 0x80 then [v.toUInt8]
  else if v < 0x800 then [(0xc0 + v / 64).toUInt8, (0x80 + v % 64).toUInt8]
  else if v < 0x10000 then
    [(0xe0 + v / 4096).toUInt8, (0x80 + v / 64 % 64).toUInt8, (0x80 + v % 64).toUInt8]
  else
    [(0xf0 + v / 262144).toUInt8, (0x80 + v / 4096 % 64).toUInt8, (0x80 + v / 64 % 64).toUInt8,
      (0x80 + v % 64).toUInt8]

/-- The bytes of a text. -/
def encode (s : String) : List UInt8 := s.toList.flatMap encodeChar

/-- A byte that can only follow another one. -/
def isContinuation (b : UInt8) : Bool := 0x80 ≤ b && b < 0xc0

/-- The six bits that a continuation byte carries. -/
def payloadBits (b : UInt8) : Nat := b.toNat - 0x80

/-- The scalar value at the front, if its form is the shortest one and complete. -/
def decodeChar? : List UInt8 → Option (Char × List UInt8)
  | [] => none
  | b :: rest =>
    if b < 0x80 then some (Char.ofNat b.toNat, rest)
    else if 0xc2 ≤ b ∧ b < 0xe0 then
      match rest with
      | c :: rest =>
        if isContinuation c then some (Char.ofNat ((b.toNat - 0xc0) * 64 + payloadBits c), rest)
        else none
      | [] => none
    else if 0xe0 ≤ b ∧ b < 0xf0 then
      match rest with
      | c :: d :: rest =>
        let v := ((b.toNat - 0xe0) * 64 + payloadBits c) * 64 + payloadBits d
        if isContinuation c ∧ isContinuation d ∧ 0x800 ≤ v ∧ ¬(0xd800 ≤ v ∧ v < 0xe000) then
          some (Char.ofNat v, rest)
        else none
      | _ => none
    else if 0xf0 ≤ b ∧ b < 0xf5 then
      match rest with
      | c :: d :: e :: rest =>
        let v := (((b.toNat - 0xf0) * 64 + payloadBits c) * 64 + payloadBits d) * 64 + payloadBits e
        if isContinuation c ∧ isContinuation d ∧ isContinuation e ∧ 0x10000 ≤ v ∧ v < 0x110000 then
          some (Char.ofNat v, rest)
        else none
      | _ => none
    else none

/-- Reading a scalar value consumes at least one byte. -/
theorem length_of_decodeChar? {bytes rest : List UInt8} {c : Char}
    (h : decodeChar? bytes = some (c, rest)) : rest.length < bytes.length := by
  unfold decodeChar? at h
  split at h
  · simp at h
  · split at h
    · simp only [Option.some.injEq, Prod.mk.injEq] at h
      simp [← h.2]
    · split at h
      · split at h
        · split at h
          · simp only [Option.some.injEq, Prod.mk.injEq] at h
            simp only [List.length_cons, ← h.2]
            omega
          · simp at h
        · simp at h
      · split at h
        · split at h
          · dsimp only at h
            split at h
            · simp only [Option.some.injEq, Prod.mk.injEq] at h
              simp only [List.length_cons, ← h.2]
              omega
            · simp at h
          · simp at h
        · split at h
          · split at h
            · dsimp only at h
              split at h
              · simp only [Option.some.injEq, Prod.mk.injEq] at h
                simp only [List.length_cons, ← h.2]
                omega
              · simp at h
            · simp at h
          · simp at h

/-- The characters of the bytes, put after those already read (last one first). -/
def decodeAfter (read : List Char) (bytes : List UInt8) : Option (List Char) :=
  match bytes with
  | [] => some read.reverse
  | b :: bs =>
    match _h : decodeChar? (b :: bs) with
    | some (c, rest) => decodeAfter (c :: read) rest
    | none => none
termination_by bytes.length
decreasing_by exact length_of_decodeChar? _h

/-- The text of the bytes, or nothing when they are not well formed. -/
def decode? (bytes : List UInt8) : Option String := (decodeAfter [] bytes).map String.ofList

/-- Whether the second byte can follow the first one of a longer sequence. -/
def isSecond (b c : UInt8) : Bool :=
  if b = 0xe0 then 0xa0 ≤ c && c < 0xc0
  else if b = 0xed then 0x80 ≤ c && c < 0xa0
  else if b = 0xf0 then 0x90 ≤ c && c < 0xc0
  else if b = 0xf4 then 0x80 ≤ c && c < 0x90
  else isContinuation c

/-- How many bytes after an ill-formed first one belong to the same broken character. -/
def brokenTail (b : UInt8) : List UInt8 → Nat
  | c :: d :: _ =>
    if 0xe0 ≤ b ∧ b < 0xf5 ∧ isSecond b c then if 0xf0 ≤ b ∧ isContinuation d then 2 else 1 else 0
  | [c] => if 0xe0 ≤ b ∧ b < 0xf5 ∧ isSecond b c then 1 else 0
  | [] => 0

/-- The characters of the bytes, with U+FFFD for each broken one, after those already read. -/
def decodeLenientAfter (read : List Char) (bytes : List UInt8) : List Char :=
  match bytes with
  | [] => read.reverse
  | b :: bs =>
    match _h : decodeChar? (b :: bs) with
    | some (c, rest) => decodeLenientAfter (c :: read) rest
    | none => decodeLenientAfter ('\ufffd' :: read) (bs.drop (brokenTail b bs))
termination_by bytes.length
decreasing_by
  · exact length_of_decodeChar? _h
  · simp only [List.length_drop, List.length_cons]
    omega

/-- The characters of the bytes, with U+FFFD for each broken one. -/
def decodeLenient (bytes : List UInt8) : List Char := decodeLenientAfter [] bytes

end Amqp.Utf8
