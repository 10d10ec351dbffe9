import Amqp.Proofs.Url.Domain
import Amqp.Proofs.Url.Percent
import Amqp.Url.Basic

/-!
# Hosts that are read again

What a host can be once it is read, and that it reads back from what is written for it. A host keeps
clear of the characters that end it, so a port is found behind it.
-/

namespace Amqp.Url

/-- What a host can be once it is read. -/
inductive Host.Read (special : Bool) : Host → Prop
  | plain {text} (hspecial : special = false) (hfree : Free controlSet text)
      (hclear : ∀ c ∈ text, isForbiddenHostChar c = false) : Read special (plain text)
  | domain {name} (hspecial : special = true) (hfilled : name ≠ [])
      (hclear : ∀ c ∈ name, isForbiddenDomainChar c = false) (hword : endsInNumber name = false)
      (hstable : domainToAscii? name = some name) : Read special (domain name)
  | ipv4 {a} (hspecial : special = true) (hbound : a < 4294967296) : Read special (ipv4 a)
  | ipv6 {ps} (hcount : ps.length = 8) (hsmall : ∀ p ∈ ps, p < 65536) : Read special (ipv6 ps)

variable {special : Bool} {cs : List Char} {c : Char} {host : Host}

theorem host?_of_head?_ne (h : cs.head? ≠ some '[') : host? special cs =
    if special then specialHost? cs
    else if cs.any isForbiddenHostChar then none
    else some (.plain (percentEncode controlSet cs)) := by
  rw [host?.eq_def]
  split
  · exact absurd rfl h
  · rfl

theorem read_of_specialHost? (h : specialHost? cs = some host) : host.Read true := by
  simp only [specialHost?, Option.bind_eq_bind, Option.bind_eq_some_iff] at h
  obtain ⟨name, hname, h⟩ := h
  obtain ⟨hsound, h⟩ := Option.ite_none_left_eq_some.mp h
  rw [not_or, List.isEmpty_iff, not_any_iff] at hsound
  split at h
  · obtain ⟨a, haddress, rfl⟩ := Option.map_eq_some_iff.mp h
    exact .ipv4 rfl (ipv4?_lt haddress)
  · rename_i hword
    obtain rfl := Option.some_inj.mp h
    exact .domain rfl hsound.1 hsound.2 (Bool.eq_false_iff.mpr hword)
      (domainToAscii?_again hname)

/-- What a host is once it is read. -/
theorem read_of_host? (h : host? special cs = some host) : host.Read special := by
  rw [host?.eq_def] at h
  split at h
  · obtain ⟨-, h⟩ := Option.ite_none_right_eq_some.mp h
    obtain ⟨ps, haddress, rfl⟩ := Option.map_eq_some_iff.mp h
    obtain ⟨hcount, hsmall⟩ := ipv6?_wellFormed haddress
    exact .ipv6 hcount hsmall
  · cases special with
    | true => exact read_of_specialHost? h
    | false =>
      obtain ⟨hallowed, h⟩ := Option.ite_none_left_eq_some.mp h
      obtain rfl := Option.some_inj.mp h
      rw [not_any_iff] at hallowed
      refine .plain rfl (free_percentEncode free_controlSet_escapes cs) fun c hc => ?_
      obtain ⟨hmem, -⟩ | hescape := mem_percentEncode hc
      · exact hallowed c hmem
      · have hfree : Free isForbiddenHostChar escapes := free_of_all rfl
        exact hfree c hescape

/-! ## Characters -/

/-- Characters that stand in no host: they end it, or they do not count. -/
def endsHost (c : Char) : Bool := c.toNat ≤ 0x20 || ['#', '/', '?', '@', '\\'].contains c

theorem endsHost_of_isForbiddenDomainChar (h : isForbiddenDomainChar c = false) :
    endsHost c = false := by
  simp only [isForbiddenDomainChar, isForbiddenHostChar, endsHost, Bool.or_eq_false_iff,
    decide_eq_false_iff_not, List.contains_eq_mem, List.mem_cons, List.not_mem_nil, or_false,
    beq_eq_false_iff_ne, ne_eq, ← Char.toNat_inj, Char.reduceToNat] at h ⊢
  omega

theorem endsHost_of_controlSet (hcontrol : controlSet c = false)
    (h : isForbiddenHostChar c = false) : endsHost c = false := by
  simp only [controlSet, isForbiddenHostChar, endsHost, Bool.or_eq_false_iff,
    decide_eq_false_iff_not, List.contains_eq_mem, List.mem_cons, List.not_mem_nil, or_false,
    ← Char.toNat_inj, Char.reduceToNat] at hcontrol h ⊢
  omega

theorem endsHost_of_isDigit (h : c.isDigit) : endsHost c = false := by
  have hrange := Text.isDigit_iff.mp h
  simp only [endsHost, Bool.or_eq_false_iff, decide_eq_false_iff_not, List.contains_eq_mem,
    List.mem_cons, List.not_mem_nil, or_false, ← Char.toNat_inj, Char.reduceToNat]
  omega

/-- A host holds none of the characters that end it. -/
theorem Host.Read.clear (h : host.Read special) : ∀ c ∈ host.chars, endsHost c = false := by
  intro c hc
  cases h with
  | plain _ hfree hallowed => exact endsHost_of_controlSet (hfree c hc) (hallowed c hc)
  | domain _ _ hallowed => exact endsHost_of_isForbiddenDomainChar (hallowed c hc)
  | ipv4 =>
    obtain hdigit | rfl := mem_ipv4 hc
    · exact endsHost_of_isDigit hdigit
    · rfl
  | ipv6 =>
    rw [chars_ipv6, List.mem_cons, List.mem_append, List.mem_singleton] at hc
    obtain rfl | hc | rfl := hc
    · rfl
    · have hfree : Free endsHost ":0123456789abcdef".toList := free_of_all rfl
      exact hfree c (mem_ipv6Text hc)
    · rfl

/-! ## Reading -/

/-- A text in which nothing is decoded is looked at as it is. -/
theorem decodeLenient_percentDecode (h : '%' ∉ cs) :
    Utf8.decodeLenient (percentDecode cs) = cs := by
  rw [percentDecode_of_notMem h, Utf8.decodeLenient_flatMap]

/-- A domain reads back. -/
theorem specialHost?_domain {name : List Char} (h : Host.Read true (.domain name)) :
    specialHost? name = some (.domain name) := by
  cases h with
  | domain _ hfilled hallowed hword hstable =>
    have hpercent : '%' ∉ name := fun hmem => absurd (hallowed _ hmem) (by decide)
    have hsound : ¬(name.isEmpty ∨ name.any isForbiddenDomainChar) := by
      rw [not_or, List.isEmpty_iff, not_any_iff]
      exact ⟨hfilled, hallowed⟩
    rw [specialHost?, decodeLenient_percentDecode hpercent, hstable]
    simp only [Option.bind_eq_bind, Option.bind_some, if_neg hsound, hword, Bool.false_eq_true,
      if_false]

theorem isForbiddenDomainChar_of_isDigit (h : c.isDigit) : isForbiddenDomainChar c = false := by
  have hrange := Text.isDigit_iff.mp h
  simp only [isForbiddenDomainChar, isForbiddenHostChar, Bool.or_eq_false_iff,
    decide_eq_false_iff_not, List.contains_eq_mem, List.mem_cons, List.not_mem_nil, or_false,
    beq_eq_false_iff_ne, ne_eq, ← Char.toNat_inj, Char.reduceToNat]
  omega

theorem specialHost?_ipv4 {a : Nat} (h : a < 4294967296) :
    specialHost? (Host.ipv4 a).chars = some (.ipv4 a) := by
  have hdigits (c : Char) (hc : c ∈ (Host.ipv4 a).chars) := mem_ipv4 hc
  have hpercent : '%' ∉ (Host.ipv4 a).chars := fun hmem => absurd (hdigits _ hmem) (by decide)
  have hnumber := endsInNumber_ipv4 a
  have hsound : ¬((Host.ipv4 a).chars.isEmpty ∨ (Host.ipv4 a).chars.any isForbiddenDomainChar) := by
    rw [not_or, List.isEmpty_iff, not_any_iff]
    refine ⟨chars_ipv4_ne_nil a, fun c hc => ?_⟩
    obtain hdigit | rfl := hdigits c hc
    · exact isForbiddenDomainChar_of_isDigit hdigit
    · rfl
  rw [specialHost?, decodeLenient_percentDecode hpercent, domainToAscii?_of_digits hdigits]
  simp only [Option.bind_eq_bind, Option.bind_some, if_neg hsound, hnumber, if_true, ipv4?_chars h,
    Option.map_some]

theorem head?_ne_of_notMem {mark : Char} (h : mark ∉ cs) : cs.head? ≠ some mark :=
  fun hhead => h (List.mem_of_mem_head? hhead)

/-- A host reads back from what is written for it. -/
theorem Host.Read.host?_chars (h : host.Read special) :
    host? special host.chars = some host := by
  cases h with
  | @plain text hspecial hfree hallowed =>
    have hbracket : '[' ∉ text := fun hmem => absurd (hallowed _ hmem) (by decide)
    have hsound : ¬text.any isForbiddenHostChar := not_any_iff.mpr hallowed
    rw [Host.chars, host?_of_head?_ne (head?_ne_of_notMem hbracket), hspecial,
      if_neg Bool.false_ne_true, if_neg hsound, percentEncode_of_free hfree]
  | @domain name hspecial hfilled hallowed hword hstable =>
    have hbracket : '[' ∉ name := fun hmem => absurd (hallowed _ hmem) (by decide)
    rw [Host.chars, host?_of_head?_ne (head?_ne_of_notMem hbracket), hspecial, if_pos rfl,
      specialHost?_domain (.domain rfl hfilled hallowed hword hstable)]
  | @ipv4 a hspecial hbound =>
    have hbracket : '[' ∉ (Host.ipv4 a).chars := fun hmem => absurd (mem_ipv4 hmem) (by decide)
    rw [host?_of_head?_ne (head?_ne_of_notMem hbracket), hspecial, if_pos rfl,
      specialHost?_ipv4 hbound]
  | @ipv6 ps hcount hsmall =>
    have hlast : (ipv6Text ps ++ [']']).getLast? = some ']' := List.getLast?_concat
    rw [chars_ipv6, host?, if_pos hlast, List.dropLast_concat, ipv6?_ipv6Text hcount hsmall]
    rfl

/-! ## The port behind a host -/

/-- Characters that are no brackets, and no colons outside of brackets, belong to the host. -/
theorem splitPort_append {inBrackets : Bool} {front : List Char}
    (h : ∀ c ∈ front, c ≠ '[' ∧ c ≠ ']' ∧ (c = ':' → inBrackets)) (rest : List Char) :
    splitPort inBrackets (front ++ rest) =
      (front ++ (splitPort inBrackets rest).1, (splitPort inBrackets rest).2) := by
  induction front with
  | nil => rfl
  | cons c front ih =>
    obtain ⟨hfirst, hmore⟩ := List.forall_mem_cons.mp h
    obtain ⟨hnotOpen, hnotClose, hcolon⟩ := hfirst
    have hinside : ¬(c = ':' ∧ (!inBrackets) = true) := by
      rintro ⟨heq, houtside⟩
      rw [hcolon heq] at houtside
      exact Bool.false_ne_true houtside
    rw [List.cons_append, Url.splitPort, if_neg hinside, if_neg hnotOpen, if_neg hnotClose]
    simp only [ih hmore, List.cons_append]

/-- A host without brackets and colons is told apart from what is written behind it. -/
theorem splitPort_of_notMem {text : List Char} (h : ∀ c ∈ text, c ≠ '[' ∧ c ≠ ']' ∧ c ≠ ':')
    (port : Option (List Char)) :
    splitPort false (text ++ markedChars ':' port) = (text, port) := by
  have hplain : ∀ c ∈ text, c ≠ '[' ∧ c ≠ ']' ∧ (c = ':' → false = true) :=
    fun c hc => ⟨(h c hc).1, (h c hc).2.1, fun hcolon => absurd hcolon (h c hc).2.2⟩
  rw [splitPort_append hplain]
  cases port with
  | none => simp [markedChars, Url.splitPort]
  | some cs => simp [markedChars, Url.splitPort]

/-- A host and what is written behind it are told apart. -/
theorem Host.Read.splitPort (h : host.Read special) (port : Option (List Char)) :
    splitPort false (host.chars ++ markedChars ':' port) = (host.chars, port) := by
  cases h with
  | plain _ _ hallowed =>
    refine splitPort_of_notMem (fun c hc => ?_) port
    have hforbidden := hallowed c hc
    refine ⟨?_, ?_, ?_⟩ <;> rintro rfl <;> exact absurd hforbidden (by decide)
  | domain _ _ hallowed =>
    refine splitPort_of_notMem (fun c hc => ?_) port
    have hforbidden := hallowed c hc
    refine ⟨?_, ?_, ?_⟩ <;> rintro rfl <;> exact absurd hforbidden (by decide)
  | ipv4 =>
    refine splitPort_of_notMem (fun c hc => ?_) port
    have hdigit := mem_ipv4 hc
    refine ⟨?_, ?_, ?_⟩ <;> rintro rfl <;> exact absurd hdigit (by decide)
  | @ipv6 ps =>
    have hdigits : ∀ c ∈ ipv6Text ps, c ≠ '[' ∧ c ≠ ']' ∧ (c = ':' → true = true) := by
      intro c hc
      have hdigit := mem_ipv6Text hc
      refine ⟨?_, ?_, fun _ => rfl⟩ <;> rintro rfl <;> exact absurd hdigit (by decide)
    have hinside (rest : List Char) := splitPort_append hdigits rest
    rw [chars_ipv6, List.cons_append, List.append_assoc, Url.splitPort, if_neg (by decide)]
    simp only [if_true, hinside]
    cases port with
    | none => simp [markedChars, Url.splitPort]
    | some cs => simp [markedChars, Url.splitPort]

/-- Only a plain host is written as nothing. -/
theorem Host.Read.chars_eq_nil (h : host.Read special) (hempty : host.chars = []) :
    host = .plain [] := by
  cases h with
  | @plain text => exact congrArg Host.plain hempty
  | domain _ hfilled => exact absurd hempty hfilled
  | @ipv4 a => exact absurd hempty (chars_ipv4_ne_nil a)
  | @ipv6 ps =>
    rw [chars_ipv6] at hempty
    cases hempty

end Amqp.Url
