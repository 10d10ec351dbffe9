import Amqp.Proofs.Url.Host

/-!
# Authorities that are read again

What stands between two slashes and the path: a user name and a password, a host and a port. They
are told apart by characters that none of them holds, so each reads back from what is written for
all.
-/

namespace Amqp.Url

variable {scheme cs : List Char} {c : Char} {u : Url} {host : Host} {port : Option Nat}

/-! ## Cutting -/

theorem cutAt_of_notMem (h : c ∉ cs) : cutAt c cs = (cs, none) := by
  rw [cutAt, Text.dropWhile_bne_of_notMem h]

theorem cutAt_append (h : c ∉ cs) (rest : List Char) :
    cutAt c (cs ++ c :: rest) = (cs, some rest) := by
  rw [cutAt, Text.dropWhile_bne_append h, Text.takeWhile_bne_append h]

/-- A marked part is cut off. -/
theorem cutAt_markedChars (h : c ∉ cs) (part : Option (List Char)) :
    cutAt c (cs ++ markedChars c part) = (cs, part) := by
  cases part with
  | none =>
    rw [markedChars, List.append_nil]
    exact cutAt_of_notMem h
  | some rest => exact cutAt_append h rest

/-- What is cut off was behind the first mark. -/
theorem eq_of_cutAt {front : List Char} {part : Option (List Char)}
    (h : cutAt c cs = (front, part)) : c ∉ front ∧ cs = front ++ markedChars c part := by
  rw [cutAt] at h
  split at h
  · rename_i hnone
    obtain ⟨rfl, rfl⟩ := Prod.mk.inj h
    refine ⟨fun hmem => ?_, (List.append_nil _).symm⟩
    exact absurd (List.dropWhile_eq_nil_iff.mp hnone c hmem) (by simp)
  · rename_i d rest hfound
    obtain ⟨rfl, rfl⟩ := Prod.mk.inj h
    have hmark : d = c := by
      have hstops := List.head?_dropWhile_not (· != c) cs
      rw [hfound] at hstops
      exact bne_eq_false_iff_eq.mp hstops
    refine ⟨fun hmem => absurd (List.mem_takeWhile_imp hmem) (by simp), ?_⟩
    rw [markedChars, ← hmark, ← hfound, hmark, List.takeWhile_append_dropWhile]

/-! ## User names and passwords -/

/-- What is read in front of the last at sign is encoded. -/
theorem free_of_splitUserinfo {username password rest : List Char}
    (h : splitUserinfo cs = (some (username, password), rest)) :
    Free userinfoSet username ∧ Free userinfoSet password := by
  rw [splitUserinfo.eq_def] at h
  split at h
  · cases h
  · obtain ⟨hinfo, -⟩ := Prod.mk.inj h
    obtain ⟨rfl, rfl⟩ := Prod.mk.inj (Option.some_inj.mp hinfo)
    exact ⟨free_percentEncode free_userinfoSet_escapes _,
      free_percentEncode free_userinfoSet_escapes _⟩
  · cases h

theorem splitUserinfo_of_notMem (h : '@' ∉ cs) : splitUserinfo cs = (none, cs) := by
  have hapart : ∀ part ∈ [cs], '@' ∉ part := List.forall_mem_singleton.mpr h
  have hsplit := Text.splitOn_intercalate hapart (List.cons_ne_nil _ _)
  rw [List.intercalate_singleton] at hsplit
  rw [splitUserinfo, hsplit]
  rfl

theorem splitUserinfo_append {info : List Char} (hinfo : '@' ∉ info) (h : '@' ∉ cs) :
    splitUserinfo (info ++ '@' :: cs) =
      (some (percentEncode userinfoSet (cutAt ':' info).1,
        percentEncode userinfoSet ((cutAt ':' info).2.getD [])), cs) := by
  have hapart : ∀ part ∈ [info, cs], '@' ∉ part :=
    List.forall_mem_cons.mpr ⟨hinfo, List.forall_mem_singleton.mpr h⟩
  have hsplit := Text.splitOn_intercalate hapart (List.cons_ne_nil _ _)
  rw [List.intercalate_cons_cons, List.intercalate_singleton, List.append_assoc,
    List.singleton_append] at hsplit
  rw [splitUserinfo, hsplit]
  simp only [List.reverse_cons, List.reverse_nil, List.nil_append, List.singleton_append,
    List.intercalate_singleton]

theorem notMem_of_free {set : Char → Bool} (h : Free set cs) (hc : set c = true) : c ∉ cs :=
  fun hmem => Bool.false_ne_true ((h c hmem).symm.trans hc)

/-- A user name and a password read back from what is written for them; there is nothing to read if
both are empty. -/
theorem splitUserinfo_userinfoChars (husername : Free userinfoSet u.username)
    (hpassword : Free userinfoSet u.password) (h : '@' ∉ cs) :
    splitUserinfo (userinfoChars u ++ cs) =
      (if u.username = [] ∧ u.password = [] then none else some (u.username, u.password), cs) := by
  have hat1 : '@' ∉ u.username := notMem_of_free husername rfl
  have hat2 : '@' ∉ u.password := notMem_of_free hpassword rfl
  have hcolon : ':' ∉ u.username := notMem_of_free husername rfl
  rw [userinfoChars]
  simp only [List.isEmpty_iff]
  split
  · rw [List.nil_append, splitUserinfo_of_notMem h]
  · split
    · rename_i hempty
      rw [List.append_assoc, List.singleton_append, splitUserinfo_append hat1 h,
        cutAt_of_notMem hcolon, percentEncode_of_free husername, hempty]
      rfl
    · have hboth : '@' ∉ u.username ++ ':' :: u.password := by
        rw [List.mem_append, List.mem_cons, not_or, not_or]
        exact ⟨hat1, by decide, hat2⟩
      rw [List.append_assoc, List.singleton_append, splitUserinfo_append hboth h,
        cutAt_append hcolon]
      simp only [Option.getD_some, percentEncode_of_free husername, percentEncode_of_free hpassword]

/-! ## Ports -/

/-- A port that is written: it is no greater than ports are, and not the one of the scheme. -/
def IsPort (scheme : List Char) (port : Option Nat) : Prop :=
  ∀ n, port = some n → n ≤ 65535 ∧ specialPort? scheme ≠ some (some n)

theorem isPort_of_port? (h : port? scheme cs = some port) : IsPort scheme port := by
  rw [port?] at h
  split at h
  · obtain rfl := Option.some_inj.mp h
    exact fun _ h => by cases h
  · obtain ⟨-, h⟩ := Option.ite_none_right_eq_some.mp h
    split at h
    · obtain ⟨hbound, h⟩ := Option.ite_none_left_eq_some.mp h
      split at h
      · obtain rfl := Option.some_inj.mp h
        exact fun _ h => by cases h
      · rename_i hown
        obtain rfl := Option.some_inj.mp h
        intro n hn
        obtain rfl := Option.some_inj.mp hn
        exact ⟨by omega, hown⟩
    · cases h

/-- A port reads back from its digits. -/
theorem port?_decimalText (h : IsPort scheme port) :
    port? scheme ((port.map decimalText).getD []) = some port := by
  cases port with
  | none => rfl
  | some n =>
    obtain ⟨hbound, hown⟩ := h n rfl
    have hdigits : (decimalText n).all Char.isDigit :=
      List.all_eq_true.mpr fun c hc => isDigit_of_mem_decimalText hc
    have hfilled : ¬(decimalText n).isEmpty := fun h => decimalText_ne_nil n (List.isEmpty_iff.mp h)
    rw [Option.map_some, Option.getD_some, port?, if_neg hfilled, if_pos hdigits,
      valueInBase?_decimalText]
    simp only [if_neg hown, if_neg (Nat.not_lt.mpr hbound)]

/-! ## The whole authority -/

/-- What an authority with that host is once it is read. -/
structure IsAuthority (u : Url) (host : Host) : Prop where
  given : u.host = some host
  read : host.Read (isSpecial u.scheme)
  username : Free userinfoSet u.username
  password : Free userinfoSet u.password
  port : IsPort u.scheme u.port
  /-- Where the host is empty, there is nothing else either. -/
  alone : host.chars = [] →
    isSpecial u.scheme = false ∧ u.username = [] ∧ u.password = [] ∧ u.port = none

/-- The authority as it is written. -/
def authorityText (u : Url) (host : Host) : List Char :=
  userinfoChars u ++ (host.chars ++ markedChars ':' (u.port.map decimalText))

theorem authorityChars_of_host (h : u.host = some host) :
    authorityChars u = '/' :: '/' :: authorityText u host := by
  rw [authorityChars, h, authorityText]
  cases u.port with
  | none => simp [markedChars]
  | some n => simp [markedChars]

/-- Only nothing is read as a host that is written as nothing. -/
theorem host?_eq_plain_nil {special : Bool} (h : host? special cs = some (.plain [])) :
    cs = [] := by
  rw [host?.eq_def] at h
  split at h
  · obtain ⟨-, h⟩ := Option.ite_none_right_eq_some.mp h
    obtain ⟨ps, -, heq⟩ := Option.map_eq_some_iff.mp h
    cases heq
  · split at h
    · cases read_of_specialHost? h with
      | plain hspecial => cases hspecial
    · obtain ⟨-, h⟩ := Option.ite_none_left_eq_some.mp h
      injection h with h
      injection h with h
      exact percentEncode_eq_nil_iff.mp h

/-- The URL of an authority alone. -/
def ofAuthority (u : Url) (host : Host) : Url :=
  { scheme := u.scheme, username := u.username, password := u.password, host := some host,
    port := u.port }

theorem isAuthority_of_readAuthority? (h : readAuthority? scheme cs = some u) :
    u.scheme = scheme ∧ ∃ host, IsAuthority u host ∧ u = u.ofAuthority host := by
  rcases hinfo : splitUserinfo cs with ⟨userinfo, rest⟩
  rcases htext : splitPort false rest with ⟨hostText, portText⟩
  simp only [readAuthority?, hinfo, htext, Option.bind_eq_bind] at h
  split at h
  · cases h
  · rename_i hallowed
    simp only [Option.bind_eq_some_iff, Option.some_inj] at h
    obtain ⟨host, hhost, port, hport, rfl⟩ := h
    have hfree : Free userinfoSet (userinfo.getD ([], [])).1 ∧
        Free userinfoSet (userinfo.getD ([], [])).2 := by
      cases userinfo with
      | none => exact ⟨free_nil, free_nil⟩
      | some names => exact free_of_splitUserinfo hinfo
    have hread := read_of_host? hhost
    refine ⟨rfl, host, ⟨rfl, hread, hfree.1, hfree.2, isPort_of_port? hport, fun hempty => ?_⟩, rfl⟩
    obtain rfl := hread.chars_eq_nil hempty
    obtain rfl := host?_eq_plain_nil hhost
    simp only [List.isEmpty_nil, true_and, not_or, Option.not_isSome_iff_eq_none] at hallowed
    obtain ⟨hnoInfo, hnoPort, hplain⟩ := hallowed
    subst hnoInfo hnoPort
    exact ⟨Bool.eq_false_iff.mpr hplain, rfl, rfl, (Option.some_inj.mp hport).symm⟩

theorem endsHost_of_userinfoSet (h : userinfoSet c = false) : endsHost c = false := by
  simp only [userinfoSet, pathSet, querySet, controlSet, endsHost, Bool.or_eq_false_iff,
    decide_eq_false_iff_not, List.contains_eq_mem, List.mem_cons, List.not_mem_nil, or_false,
    ← Char.toNat_inj, Char.reduceToNat] at h ⊢
  omega

theorem endsHost_of_mem_markedChars (h : c ∈ markedChars ':' (port.map decimalText)) :
    endsHost c = false := by
  cases port with
  | none => cases h
  | some n =>
    obtain rfl | h := List.mem_cons.mp h
    · rfl
    · exact endsHost_of_isDigit (isDigit_of_mem_decimalText h)

/-- Behind the user name and the password there is no character that ends a host. -/
theorem IsAuthority.clear_host (h : IsAuthority u host) :
    ∀ c ∈ host.chars ++ markedChars ':' (u.port.map decimalText), endsHost c = false := by
  intro c hc
  obtain hc | hc := List.mem_append.mp hc
  · exact h.read.clear c hc
  · exact endsHost_of_mem_markedChars hc

/-- The at sign aside, an authority holds no character that ends a host. -/
theorem IsAuthority.clear (h : IsAuthority u host) :
    ∀ c ∈ authorityText u host, c = '@' ∨ endsHost c = false := by
  intro c hc
  obtain hc | hc := List.mem_append.mp hc
  · rw [userinfoChars] at hc
    split at hc
    · cases hc
    · split at hc
      · obtain hc | hc := List.mem_append.mp hc
        · exact .inr (endsHost_of_userinfoSet (h.username c hc))
        · exact .inl (List.mem_singleton.mp hc)
      · rw [List.mem_append, List.mem_append, List.mem_cons, List.mem_singleton] at hc
        obtain (hc | rfl | hc) | hc := hc
        · exact .inr (endsHost_of_userinfoSet (h.username c hc))
        · exact .inr rfl
        · exact .inr (endsHost_of_userinfoSet (h.password c hc))
        · exact .inl hc
  · exact .inr (h.clear_host c hc)

/-- An authority reads back from what is written for it. -/
theorem readAuthority?_authorityText (h : IsAuthority u host) :
    readAuthority? u.scheme (authorityText u host) = some (u.ofAuthority host) := by
  have hsign : '@' ∉ host.chars ++ markedChars ':' (u.port.map decimalText) :=
    fun hmem => absurd (h.clear_host _ hmem) (by decide)
  have hinfo := splitUserinfo_userinfoChars h.username h.password hsign
  have htext := h.read.splitPort (u.port.map decimalText)
  have hallowed : ¬(host.chars.isEmpty ∧
      ((if u.username = [] ∧ u.password = [] then none
        else some (u.username, u.password)).isSome ∨ (u.port.map decimalText).isSome ∨
        isSpecial u.scheme)) := by
    rintro ⟨hempty, hmore⟩
    obtain ⟨hplain, hnoName, hnoPassword, hnoPort⟩ := h.alone (List.isEmpty_iff.mp hempty)
    simp [hplain, hnoName, hnoPassword, hnoPort] at hmore
  have hnames : (if u.username = [] ∧ u.password = [] then none
      else some (u.username, u.password)).getD ([], []) = (u.username, u.password) := by
    split
    · rename_i hempty
      rw [hempty.1, hempty.2]
      rfl
    · rfl
  simp only [readAuthority?, authorityText, hinfo, htext, if_neg hallowed, hnames,
    port?_decimalText h.port, h.read.host?_chars, Option.bind_eq_bind, Option.bind_some]
  rfl

end Amqp.Url
