import Amqp.Proofs.Url.Authority
import Amqp.Proofs.Url.Path

/-!
# Hierarchies that are read again

What stands between the scheme and the query of a URL: an authority and a path behind it, a path
alone, or one text. Whatever it is once it is read, it is read again from what is written for it.
-/

namespace Amqp.Url

/-- The scheme of files. -/
def fileScheme : List Char := "file".toList

/-- Nothing besides a host and a path. -/
def IsBare (u : Url) : Prop := u.username = [] ∧ u.password = [] ∧ u.port = none

/-- The host of a file is none, or one that is not its own. -/
def IsForeign (host : Host) : Prop :=
  host = .plain [] ∨ host.Read true ∧ host ≠ .domain "localhost".toList

/-- What a URL is once it is read, its query and its fragment aside. -/
inductive IsHierarchy (u : Url) : Prop
  | authority {host parts} (hgiven : IsAuthority u host) (hnotFile : u.scheme ≠ fileScheme)
      (hpath : u.path = .segments parts) (hread : IsRead u.scheme parts)
  | file {host parts} (hisFile : u.scheme = fileScheme) (hbare : IsBare u)
      (hgiven : u.host = some host) (hforeign : IsForeign host)
      (hpath : u.path = .segments parts) (hread : IsRead u.scheme parts)
  | rooted {parts} (hplain : isSpecial u.scheme = false) (hbare : IsBare u) (hgiven : u.host = none)
      (hpath : u.path = .segments parts) (hread : IsRead u.scheme parts)
  | rootless {text} (hplain : isSpecial u.scheme = false) (hbare : IsBare u)
      (hgiven : u.host = none) (hpath : u.path = .rootless text) (hfree : Free controlSet text)
      (hroot : text.head? ≠ some '/') (hmarks : '#' ∉ text ∧ '?' ∉ text)

variable {u : Url} {scheme cs : List Char} {parts : List (List Char)} {host : Host}

/-- A URL with that scheme, and with neither query nor fragment. -/
structure IsBase (scheme : List Char) (u : Url) : Prop where
  scheme : u.scheme = scheme
  query : u.query = none
  fragment : u.fragment = none

/-! ## What is read -/

/-- A slash for a backslash. -/
def slashes (cs : List Char) : List Char := cs.map fun c => if c = '\\' then '/' else c

theorem notMem_slashes (cs : List Char) : '\\' ∉ slashes cs := by
  intro hmem
  obtain ⟨c, -, heq⟩ := List.mem_map.mp hmem
  split at heq
  · cases heq
  · contradiction

theorem slashes_of_notMem (h : '\\' ∉ cs) : slashes cs = cs := by
  have hsame : ∀ c ∈ cs, (if c = '\\' then '/' else c) = c :=
    fun c hc => if_neg fun heq : c = '\\' => h (heq ▸ hc)
  rw [slashes, List.map_congr_left hsame]
  exact List.map_id' cs

/-- An authority and the path behind it. -/
def readRoot? (scheme cs : List Char) : Option Url :=
  (readAuthority? scheme (cs.takeWhile (· != '/'))).bind fun u =>
    some { u with path := readPath scheme (cs.dropWhile (· != '/')) }

theorem readHierarchy?_special (h : isSpecial scheme) (cs : List Char) : readHierarchy? scheme cs =
    if scheme = fileScheme then readFile? scheme (slashes cs)
    else readRoot? scheme ((slashes cs).dropWhile (· == '/')) := by
  rw [readHierarchy?.eq_def, if_pos h]
  rfl

theorem readHierarchy?_authority (h : isSpecial scheme = false) (cs : List Char) :
    readHierarchy? scheme ('/' :: '/' :: cs) = readRoot? scheme cs := by
  rw [readHierarchy?.eq_def, h]
  rfl

theorem isHierarchy_of_readRoot? (hnotFile : scheme ≠ fileScheme)
    (hback : isSpecial scheme → '\\' ∉ cs) (h : readRoot? scheme cs = some u) :
    IsHierarchy u ∧ IsBase scheme u := by
  simp only [readRoot?, Option.bind_eq_some_iff, Option.some_inj] at h
  obtain ⟨w, hw, rfl⟩ := h
  obtain ⟨rfl, host, hgiven, heq⟩ := isAuthority_of_readAuthority? hw
  have hbehind : isSpecial w.scheme → '\\' ∉ cs.dropWhile (· != '/') :=
    fun hspecial hmem => hback hspecial ((List.dropWhile_sublist _).subset hmem)
  obtain ⟨parts, hpath, hread⟩ := readPath_eq hbehind
  have hquery : w.query = none := by rw [heq]; rfl
  have hfragment : w.fragment = none := by rw [heq]; rfl
  have hagain : IsAuthority { w with path := readPath w.scheme (cs.dropWhile (· != '/')) } host :=
    ⟨hgiven.given, hgiven.read, hgiven.username, hgiven.password, hgiven.port, hgiven.alone⟩
  exact ⟨.authority hagain hnotFile hpath hread, rfl, hquery, hfragment⟩

/-- The host of a file; its own one counts as none. -/
def fileHost? (text : List Char) : Option Host :=
  (if text.isEmpty then some (.plain []) else host? true text).map fun host =>
    if host = .domain "localhost".toList then .plain [] else host

theorem readFile?_host (scheme : List Char) {cs : List Char}
    (hdrive : isDriveLetter (cs.takeWhile (· != '/')) = false) :
    readFile? scheme ('/' :: '/' :: cs) = (fileHost? (cs.takeWhile (· != '/'))).map fun host =>
      { scheme, host := some host, path := readPath scheme (cs.dropWhile (· != '/')) } := by
  rw [readFile?, fileHost?]
  simp only [hdrive, Bool.false_eq_true, if_false]
  split
  · rfl
  · cases host? true (cs.takeWhile (· != '/')) <;> rfl

theorem isForeign_of_fileHost? (h : fileHost? cs = some host) : IsForeign host := by
  obtain ⟨found, hfound, rfl⟩ := Option.map_eq_some_iff.mp h
  split
  · exact .inl rfl
  · rename_i hforeign
    split at hfound
    · exact .inl (Option.some_inj.mp hfound).symm
    · exact .inr ⟨read_of_host? hfound, hforeign⟩

theorem isHierarchy_of_readFile? (hback : '\\' ∉ cs) (h : readFile? fileScheme cs = some u) :
    IsHierarchy u ∧ IsBase fileScheme u := by
  by_cases htwo : ∃ rest, cs = '/' :: '/' :: rest
  · obtain ⟨rest, rfl⟩ := htwo
    have hbehind : '\\' ∉ rest :=
      fun hmem => hback (List.mem_cons_of_mem _ (List.mem_cons_of_mem _ hmem))
    by_cases hdrive : isDriveLetter (rest.takeWhile (· != '/'))
    · rw [readFile?] at h
      simp only [hdrive, if_true] at h
      obtain rfl := Option.some_inj.mp h
      obtain ⟨parts, hpath, hread⟩ := readSegments_eq fun _ => hbehind
      exact ⟨.file rfl ⟨rfl, rfl, rfl⟩ rfl (.inl rfl) hpath hread, rfl, rfl, rfl⟩
    · rw [readFile?_host _ (Bool.eq_false_iff.mpr hdrive)] at h
      obtain ⟨host, hhost, rfl⟩ := Option.map_eq_some_iff.mp h
      obtain ⟨parts, hpath, hread⟩ :=
        readPath_eq fun _ hmem => hbehind ((List.dropWhile_sublist (· != '/')).subset hmem)
      have hforeign := isForeign_of_fileHost? hhost
      exact ⟨.file rfl ⟨rfl, rfl, rfl⟩ rfl hforeign hpath hread, rfl, rfl, rfl⟩
  · rw [readFile?.eq_def] at h
    split at h
    · exact absurd ⟨_, rfl⟩ htwo
    · obtain rfl := Option.some_inj.mp h
      obtain ⟨parts, hpath, hread⟩ := readPath_eq fun _ => hback
      exact ⟨.file rfl ⟨rfl, rfl, rfl⟩ rfl (.inl rfl) hpath hread, rfl, rfl, rfl⟩

/-- What is read between the scheme and the query. -/
theorem isHierarchy_of_readHierarchy? (hmarks : '#' ∉ cs ∧ '?' ∉ cs)
    (h : readHierarchy? scheme cs = some u) : IsHierarchy u ∧ IsBase scheme u := by
  by_cases hspecial : isSpecial scheme
  · rw [readHierarchy?_special hspecial] at h
    have hback := notMem_slashes cs
    split at h
    · rename_i hisFile
      subst hisFile
      exact isHierarchy_of_readFile? hback h
    · rename_i hnotFile
      exact isHierarchy_of_readRoot? hnotFile
        (fun _ hmem => hback ((List.dropWhile_sublist _).subset hmem)) h
  · have hplain := Bool.eq_false_iff.mpr hspecial
    have hnotFile : scheme ≠ fileScheme := fun heq => hspecial (by rw [heq]; rfl)
    rw [readHierarchy?.eq_def, if_neg hspecial] at h
    split at h
    · exact isHierarchy_of_readRoot? hnotFile (fun hs => absurd hs hspecial) h
    · rename_i rest hnotTwo
      obtain rfl := Option.some_inj.mp h
      obtain ⟨parts, hpath, hread⟩ := readSegments_eq fun hs => absurd hs hspecial
      exact ⟨.rooted hplain ⟨rfl, rfl, rfl⟩ rfl hpath hread, rfl, rfl, rfl⟩
    · rename_i hnotTwo hnotOne
      obtain rfl := Option.some_inj.mp h
      refine ⟨.rootless hplain ⟨rfl, rfl, rfl⟩ rfl rfl
        (free_percentEncode free_controlSet_escapes cs) ?_ ?_, rfl, rfl, rfl⟩
      · intro hroot
        obtain hroot | heq := head?_percentEncode hroot
        · obtain ⟨rest, rfl⟩ := List.head?_eq_some_iff.mp hroot
          exact hnotOne rest rfl
        · cases heq
      · exact ⟨fun hmem => (mem_percentEncode hmem).elim (fun h => hmarks.1 h.1) (by decide),
          fun hmem => (mem_percentEncode hmem).elim (fun h => hmarks.2 h.1) (by decide)⟩

theorem host_of_readRoot? (h : readRoot? scheme cs = some u) : u.host ≠ none := by
  simp only [readRoot?, Option.bind_eq_some_iff, Option.some_inj] at h
  obtain ⟨w, hw, rfl⟩ := h
  obtain ⟨-, host, hgiven, -⟩ := isAuthority_of_readAuthority? hw
  exact fun hnone => Option.some_ne_none host (hgiven.given.symm.trans hnone)

/-- An undivided text is all that was read. -/
theorem rootless_of_readHierarchy? {text : List Char} (hmarks : '#' ∉ cs ∧ '?' ∉ cs)
    (h : readHierarchy? scheme cs = some u) (hpath : u.path = .rootless text) :
    text = percentEncode controlSet cs := by
  obtain ⟨hhierarchy, rfl, -⟩ := isHierarchy_of_readHierarchy? hmarks h
  cases hhierarchy with
  | authority _ _ hdivided => cases hpath.symm.trans hdivided
  | file _ _ _ _ hdivided => cases hpath.symm.trans hdivided
  | rooted _ _ _ hdivided => cases hpath.symm.trans hdivided
  | rootless hplain _ hgiven =>
    rw [readHierarchy?.eq_def, hplain, if_neg Bool.false_ne_true] at h
    split at h
    · exact absurd hgiven (host_of_readRoot? h)
    · rw [← Option.some_inj.mp h] at hpath
      cases hpath
    · rw [← Option.some_inj.mp h] at hpath
      exact (Path.rootless.inj hpath).symm

/-! ## What is written -/

/-- What is written between the scheme and the query. -/
def hierarchyText (u : Url) : List Char := authorityChars u ++ u.path.chars

/-- The path as it is read again: without a host, no segments at all leave no trace of a slash. -/
def pathAgain (u : Url) : Path :=
  if u.host = none ∧ u.path = .segments [] then .rootless [] else u.path

/-- The URL as it is read again, without its query and its fragment. -/
def base (u : Url) : Url := { u with path := u.pathAgain, query := none, fragment := none }

theorem chars_pathAgain (u : Url) : u.pathAgain.chars = u.path.chars := by
  rw [pathAgain]
  split
  · rename_i hnone
    rw [hnone.2]
    rfl
  · rfl

theorem pathAgain_of_host (h : u.host = some host) : u.pathAgain = u.path :=
  if_neg fun hnone => by rw [h] at hnone; cases hnone.1

/-- What stands before the path is told apart from it. -/
theorem takeWhile_segments (h : '/' ∉ cs) (parts : List (List Char)) :
    (cs ++ (Path.segments parts).chars).takeWhile (· != '/') = cs ∧
      (cs ++ (Path.segments parts).chars).dropWhile (· != '/') = (Path.segments parts).chars := by
  by_cases hfilled : parts = []
  · subst hfilled
    rw [Path.chars, List.flatMap_nil, List.append_nil]
    exact ⟨Text.takeWhile_bne_of_notMem h, Text.dropWhile_bne_of_notMem h⟩
  · rw [chars_segments hfilled]
    exact ⟨Text.takeWhile_bne_append h, Text.dropWhile_bne_append h⟩

theorem IsAuthority.notMem_slash (h : IsAuthority u host) : '/' ∉ authorityText u host :=
  fun hmem => absurd (h.clear _ hmem) (by decide)

/-- An authority and the path behind it read back from what is written for them. -/
theorem readRoot?_text (hgiven : IsAuthority u host) (hpath : u.path = .segments parts)
    (hread : IsRead u.scheme parts) :
    readRoot? u.scheme (authorityText u host ++ u.path.chars) = some u.base := by
  obtain ⟨hfront, hback⟩ := takeWhile_segments hgiven.notMem_slash parts
  rw [readRoot?, hpath, hfront, hback, readAuthority?_authorityText hgiven, readPath_chars hread,
    Option.bind_some, base, pathAgain_of_host hgiven.given, hpath, ofAuthority, ← hgiven.given]

/-! ## Reading again -/

theorem fileScheme_isSpecial : isSpecial fileScheme = true := rfl

/-- A slash in front of a path and what is behind it. -/
theorem readHierarchy?_rooted (h : isSpecial scheme = false) (hroot : cs.head? ≠ some '/') :
    readHierarchy? scheme ('/' :: cs) = some { scheme, path := readSegments scheme cs } := by
  rw [readHierarchy?.eq_def, h, if_neg Bool.false_ne_true]
  split
  · rename_i rest heq
    obtain ⟨-, rfl⟩ := List.cons.inj heq
    exact absurd rfl hroot
  · rename_i rest _ heq
    rw [(List.cons.inj heq).2]
  · rename_i hnotOne
    exact absurd rfl (hnotOne cs)

/-- A text without a slash in front. -/
theorem readHierarchy?_rootless (h : isSpecial scheme = false) (hroot : cs.head? ≠ some '/') :
    readHierarchy? scheme cs =
      some { scheme, path := .rootless (percentEncode controlSet cs) } := by
  rw [readHierarchy?.eq_def, h, if_neg Bool.false_ne_true]
  split
  · exact absurd rfl hroot
  · exact absurd rfl hroot
  · rfl

theorem base_of_isBare (h : IsBare u) :
    u.base = { scheme := u.scheme, host := u.host, path := u.pathAgain } := by
  obtain ⟨husername, hpassword, hport⟩ := h
  rw [base, husername, hpassword, hport]

theorem authorityText_of_isBare (h : IsBare u) (host : Host) :
    authorityText u host = host.chars := by
  obtain ⟨husername, hpassword, hport⟩ := h
  rw [authorityText, userinfoChars, husername, hpassword, hport, Option.map_none, markedChars,
    List.append_nil]
  rfl

/-- A host is no drive. -/
theorem Host.Read.isDriveLetter_chars (h : host.Read true) : isDriveLetter host.chars = false := by
  rw [Bool.eq_false_iff]
  intro hdrive
  obtain ⟨c, d, heq, hletter, hmark⟩ := isDriveLetter_eq_true hdrive
  have hfirst : c ∈ host.chars := by rw [heq]; exact List.mem_cons_self
  have hsecond : d ∈ host.chars := by rw [heq]; exact List.mem_cons_of_mem _ List.mem_cons_self
  cases h with
  | plain hspecial => cases hspecial
  | domain _ _ hclear =>
    have hallowed := hclear d hsecond
    obtain rfl | rfl := hmark <;> exact absurd hallowed (by decide)
  | ipv4 =>
    have hdigit := mem_ipv4 hsecond
    obtain rfl | rfl := hmark <;> exact absurd hdigit (by decide)
  | ipv6 =>
    rw [chars_ipv6] at heq
    obtain ⟨rfl, -⟩ := List.cons.inj heq
    exact absurd hletter (by decide)

theorem IsForeign.isDriveLetter_chars (h : IsForeign host) : isDriveLetter host.chars = false := by
  obtain rfl | ⟨hread, -⟩ := h
  · rfl
  · exact hread.isDriveLetter_chars

theorem IsForeign.clear (h : IsForeign host) : ∀ c ∈ host.chars, endsHost c = false := by
  obtain rfl | ⟨hread, -⟩ := h
  · exact fun c hc => by cases hc
  · exact hread.clear

/-- The host of a file reads back from what is written for it. -/
theorem fileHost?_chars (h : IsForeign host) : fileHost? host.chars = some host := by
  obtain rfl | ⟨hread, hforeign⟩ := h
  · rfl
  · have hfilled : ¬host.chars.isEmpty := by
      rw [List.isEmpty_iff]
      intro hempty
      obtain rfl := hread.chars_eq_nil hempty
      cases hread with
      | plain hspecial => cases hspecial
    rw [fileHost?, if_neg hfilled, hread.host?_chars, Option.map_some, if_neg hforeign]

/-- Slashes in front of an authority are passed over. -/
theorem dropWhile_slash {front : List Char} (h : '/' ∉ front) (hfilled : front ≠ [])
    (rest : List Char) :
    ('/' :: '/' :: (front ++ rest)).dropWhile (· == '/') = front ++ rest := by
  cases front with
  | nil => exact absurd rfl hfilled
  | cons c front =>
    have hfirst : (c == '/') = false := beq_false_of_ne fun heq => h (heq ▸ List.mem_cons_self)
    rw [List.cons_append, List.dropWhile_cons_of_pos rfl, List.dropWhile_cons_of_pos rfl,
      List.dropWhile_cons_of_neg (by rw [hfirst]; exact Bool.false_ne_true)]

theorem IsAuthority.authorityText_ne_nil (h : IsAuthority u host) (hspecial : isSpecial u.scheme) :
    authorityText u host ≠ [] := by
  intro hempty
  rw [authorityText, List.append_eq_nil_iff, List.append_eq_nil_iff] at hempty
  rw [(h.alone hempty.2.1).1] at hspecial
  cases hspecial

theorem hierarchyText_of_host (h : u.host = some host) :
    u.hierarchyText = '/' :: '/' :: (authorityText u host ++ u.path.chars) := by
  rw [hierarchyText, authorityChars_of_host h]
  rfl

/-- No backslash is written where it would be taken for a slash. -/
theorem notMem_backslash_hierarchyText {front : List Char}
    (hfront : ∀ c ∈ front, c = '@' ∨ endsHost c = false) (hread : IsRead scheme parts)
    (hspecial : isSpecial scheme) :
    '\\' ∉ '/' :: '/' :: (front ++ (Path.segments parts).chars) := by
  simp only [List.mem_cons, List.mem_append, not_or]
  exact ⟨by decide, by decide, fun hmem => absurd (hfront _ hmem) (by decide),
    hread.notMem_backslash hspecial⟩

theorem readHierarchy?_of_authority (hgiven : IsAuthority u host) (hnotFile : u.scheme ≠ fileScheme)
    (hpath : u.path = .segments parts) (hread : IsRead u.scheme parts) :
    readHierarchy? u.scheme u.hierarchyText = some u.base := by
  rw [hierarchyText_of_host hgiven.given]
  by_cases hspecial : isSpecial u.scheme
  · have hback := notMem_backslash_hierarchyText hgiven.clear hread hspecial
    rw [← hpath] at hback
    rw [readHierarchy?_special hspecial, if_neg hnotFile, slashes_of_notMem hback,
      dropWhile_slash hgiven.notMem_slash (hgiven.authorityText_ne_nil hspecial),
      readRoot?_text hgiven hpath hread]
  · rw [readHierarchy?_authority (Bool.eq_false_iff.mpr hspecial),
      readRoot?_text hgiven hpath hread]

theorem readHierarchy?_of_file (hisFile : u.scheme = fileScheme) (hbare : IsBare u)
    (hgiven : u.host = some host) (hforeign : IsForeign host) (hpath : u.path = .segments parts)
    (hread : IsRead u.scheme parts) :
    readHierarchy? u.scheme u.hierarchyText = some u.base := by
  have hspecial : isSpecial u.scheme := by rw [hisFile]; exact fileScheme_isSpecial
  have hback :=
    notMem_backslash_hierarchyText (fun c hc => .inr (hforeign.clear c hc)) hread hspecial
  have hslash : '/' ∉ host.chars := fun hmem => absurd (hforeign.clear _ hmem) (by decide)
  obtain ⟨hfront, hbehind⟩ := takeWhile_segments hslash parts
  rw [hierarchyText_of_host hgiven, authorityText_of_isBare hbare, hpath,
    readHierarchy?_special hspecial, if_pos hisFile, slashes_of_notMem hback,
    readFile?_host _ (by rw [hfront]; exact hforeign.isDriveLetter_chars), hfront, hbehind,
    fileHost?_chars hforeign, readPath_chars hread, Option.map_some, base_of_isBare hbare,
    pathAgain_of_host hgiven, hpath, hgiven]

/-- Segments that are not empty in front do not begin with a slash. -/
theorem head?_intercalate (hread : IsRead scheme parts)
    (hnotMarked : ∀ next rest, parts ≠ [] :: next :: rest) :
    (['/'].intercalate parts).head? ≠ some '/' := by
  cases parts with
  | nil => exact fun hroot => by cases hroot
  | cons part parts =>
    have hslash := (hread.settled.segment part List.mem_cons_self).slash
    cases parts with
    | nil =>
      rw [List.intercalate_singleton]
      exact head?_ne_of_notMem hslash
    | cons next rest =>
      cases part with
      | nil => exact absurd rfl (hnotMarked next rest)
      | cons c part =>
        rw [List.intercalate_cons_cons]
        exact fun hroot => hslash (Option.some_inj.mp hroot ▸ List.mem_cons_self)

/-- Without a host, a path that would be taken for one has a dot in front. -/
theorem authorityChars_cases (hgiven : u.host = none) :
    (∃ next rest, u.path = .segments ([] :: next :: rest)) ∧ authorityChars u = ['/', '.'] ∨
      (∀ next rest, u.path ≠ .segments ([] :: next :: rest)) ∧ authorityChars u = [] := by
  by_cases hmarked : ∃ next rest, u.path = .segments ([] :: next :: rest)
  · obtain ⟨next, rest, hpath⟩ := hmarked
    refine .inl ⟨⟨next, rest, hpath⟩, ?_⟩
    rw [authorityChars, hgiven, hpath]
  · have hnotMarked : ∀ next rest, u.path ≠ .segments ([] :: next :: rest) :=
      fun next rest hpath => hmarked ⟨next, rest, hpath⟩
    refine .inr ⟨hnotMarked, ?_⟩
    simp only [authorityChars, hgiven]

theorem readHierarchy?_of_rooted (hplain : isSpecial u.scheme = false) (hbare : IsBare u)
    (hgiven : u.host = none) (hpath : u.path = .segments parts) (hread : IsRead u.scheme parts) :
    readHierarchy? u.scheme u.hierarchyText = some u.base := by
  rw [base_of_isBare hbare, pathAgain, hgiven, hierarchyText]
  obtain ⟨⟨next, rest, heq⟩, htext⟩ | ⟨hnotMarked, htext⟩ := authorityChars_cases hgiven
  · -- Behind the dot the segments are read as they are, and the dot itself is passed over.
    obtain rfl := Path.segments.inj (hpath.symm.trans heq)
    have hfilled := List.cons_ne_nil ([] : List Char) (next :: rest)
    have hroot : ('.' :: '/' :: ['/'].intercalate ([] :: next :: rest)).head? ≠ some '/' :=
      fun hroot => by cases hroot
    have hagain := readSegments_dot hread hfilled
    rw [htext, hpath, if_neg fun hnone => hfilled (Path.segments.inj hnone.2),
      chars_segments hfilled, ← hagain]
    exact readHierarchy?_rooted hplain hroot
  · rw [htext, hpath, List.nil_append]
    by_cases hfilled : parts = []
    · -- Nothing is written for no segments, and nothing is an undivided text.
      subst hfilled
      rw [if_pos ⟨rfl, rfl⟩]
      exact readHierarchy?_rootless hplain fun hroot => by cases hroot
    · have hroot := head?_intercalate hread fun next rest heq => hnotMarked next rest (heq ▸ hpath)
      rw [if_neg fun hnone => hfilled (Path.segments.inj hnone.2), chars_segments hfilled,
        readHierarchy?_rooted hplain hroot, readSegments_intercalate hread hfilled]

theorem hierarchyText_of_rootless {text : List Char} (hgiven : u.host = none)
    (hpath : u.path = .rootless text) : u.hierarchyText = text := by
  obtain ⟨⟨next, rest, heq⟩, -⟩ | ⟨-, hfront⟩ := authorityChars_cases hgiven
  · cases hpath.symm.trans heq
  · rw [hierarchyText, hfront, hpath, Path.chars, List.nil_append]

theorem readHierarchy?_of_rootless {text : List Char} (hplain : isSpecial u.scheme = false)
    (hbare : IsBare u) (hgiven : u.host = none) (hpath : u.path = .rootless text)
    (hfree : Free controlSet text) (hroot : text.head? ≠ some '/') :
    readHierarchy? u.scheme u.hierarchyText = some u.base := by
  have hsame : u.pathAgain = u.path := if_neg fun hnone => by rw [hpath] at hnone; cases hnone.2
  rw [hierarchyText_of_rootless hgiven hpath, base_of_isBare hbare, hgiven, hsame, hpath,
    readHierarchy?_rootless hplain hroot, percentEncode_of_free hfree]

/-- What stands between the scheme and the query reads back from what is written for it. -/
theorem readHierarchy?_hierarchyText (h : IsHierarchy u) :
    readHierarchy? u.scheme u.hierarchyText = some u.base := by
  cases h with
  | authority hgiven hnotFile hpath hread =>
    exact readHierarchy?_of_authority hgiven hnotFile hpath hread
  | file hisFile hbare hgiven hforeign hpath hread =>
    exact readHierarchy?_of_file hisFile hbare hgiven hforeign hpath hread
  | rooted hplain hbare hgiven hpath hread =>
    exact readHierarchy?_of_rooted hplain hbare hgiven hpath hread
  | rootless hplain hbare hgiven hpath hfree hroot =>
    exact readHierarchy?_of_rootless hplain hbare hgiven hpath hfree hroot

/-! ## Characters -/

theorem isEdge_eq_false_iff {c : Char} : isEdge c = false ↔ 0x20 < c.toNat := by
  simp only [isEdge, decide_eq_false_iff_not, not_le]

/-- Characters that stand between the scheme and the query; in an undivided text there may be spaces
as well. -/
def isFront (c : Char) : Bool := 0x20 < c.toNat && c != '#' && c != '?'

theorem low_of_isFront {c : Char} (h : isFront c) : 0x20 < c.toNat := by
  simp only [isFront, Bool.and_eq_true, decide_eq_true_eq] at h
  exact h.1.1

theorem isFront_of_endsHost {c : Char} (h : endsHost c = false) : isFront c := by
  simp only [endsHost, isFront, Bool.or_eq_false_iff, Bool.and_eq_true, decide_eq_false_iff_not,
    decide_eq_true_eq, List.contains_eq_mem, List.mem_cons, List.not_mem_nil, or_false, bne_iff_ne,
    ne_eq, ← Char.toNat_inj, Char.reduceToNat] at h ⊢
  omega

theorem isFront_of_pathSet {c : Char} (h : pathSet c = false) : isFront c := by
  simp only [pathSet, querySet, controlSet, isFront, Bool.or_eq_false_iff, Bool.and_eq_true,
    decide_eq_false_iff_not, decide_eq_true_eq, List.contains_eq_mem, List.mem_cons,
    List.not_mem_nil, or_false, bne_iff_ne, ne_eq, ← Char.toNat_inj, Char.reduceToNat] at h ⊢
  omega

/-- An authority and the slashes in front of it. -/
theorem isFront_slashes {front : List Char} (h : ∀ c ∈ front, c = '@' ∨ endsHost c = false) :
    ∀ c ∈ '/' :: '/' :: front, isFront c := by
  refine List.forall_mem_cons.mpr ⟨rfl, List.forall_mem_cons.mpr ⟨rfl, fun c hc => ?_⟩⟩
  obtain rfl | hclear := h c hc
  · rfl
  · exact isFront_of_endsHost hclear

theorem isFront_hierarchyText (hfront : ∀ c ∈ authorityChars u, isFront c)
    (hpath : u.path = .segments parts) (hread : IsRead scheme parts) :
    ∀ c ∈ u.hierarchyText, isFront c := by
  intro c hc
  obtain hc | hc := List.mem_append.mp hc
  · exact hfront c hc
  · rw [hpath] at hc
    exact isFront_of_pathSet (hread.free c hc)

/-- What is written holds only such characters, unless it is an undivided text. -/
theorem IsHierarchy.isFront (h : IsHierarchy u) :
    (∀ c ∈ u.hierarchyText, isFront c) ∨
      u.path = .rootless u.hierarchyText ∧ Free controlSet u.hierarchyText ∧
        '#' ∉ u.hierarchyText ∧ '?' ∉ u.hierarchyText := by
  cases h with
  | authority hgiven hnotFile hpath hread =>
    refine .inl (isFront_hierarchyText ?_ hpath hread)
    rw [authorityChars_of_host hgiven.given]
    exact isFront_slashes hgiven.clear
  | file hisFile hbare hgiven hforeign hpath hread =>
    refine .inl (isFront_hierarchyText ?_ hpath hread)
    rw [authorityChars_of_host hgiven, authorityText_of_isBare hbare]
    exact isFront_slashes fun c hc => .inr (hforeign.clear c hc)
  | rooted hplain hbare hgiven hpath hread =>
    refine .inl (isFront_hierarchyText ?_ hpath hread)
    obtain ⟨-, htext⟩ | ⟨-, htext⟩ := authorityChars_cases hgiven
    · rw [htext]
      exact List.all_eq_true.mp rfl
    · rw [htext]
      exact fun c hc => by cases hc
  | rootless hplain hbare hgiven hpath hfree hroot hmarks =>
    have htext : u.hierarchyText = _ := hierarchyText_of_rootless hgiven hpath
    rw [htext]
    exact .inr ⟨hpath, hfree, hmarks⟩

theorem IsHierarchy.notMem_marks (h : IsHierarchy u) :
    '#' ∉ u.hierarchyText ∧ '?' ∉ u.hierarchyText := by
  obtain hfront | ⟨-, -, hmarks⟩ := h.isFront
  · exact ⟨fun hmem => absurd (hfront _ hmem) (by decide),
      fun hmem => absurd (hfront _ hmem) (by decide)⟩
  · exact hmarks

/-- No control character is written. -/
theorem IsHierarchy.low (h : IsHierarchy u) : ∀ c ∈ u.hierarchyText, 0x20 ≤ c.toNat := by
  intro c hc
  obtain hfront | ⟨-, hfree, -⟩ := h.isFront
  · exact (low_of_isFront (hfront c hc)).le
  · have hfree := hfree c hc
    simp only [controlSet, Bool.or_eq_false_iff, decide_eq_false_iff_not] at hfree
    omega

/-- Only an undivided text ends in a space. -/
theorem IsHierarchy.last {c : Char} (h : IsHierarchy u)
    (hends : ∀ text, u.path = .rootless text → text.getLast? ≠ some ' ')
    (hc : u.hierarchyText.getLast? = some c) : isEdge c = false := by
  obtain hfront | ⟨hpath, hfree, -⟩ := h.isFront
  · exact isEdge_eq_false_iff.mpr (low_of_isFront (hfront c (List.mem_of_getLast? hc)))
  · have hlow := h.low c (List.mem_of_getLast? hc)
    have hnotSpace : c.toNat ≠ 0x20 := fun heq => by
      obtain rfl : c = ' ' := Char.toNat_inj.mp heq
      exact hends _ hpath hc
    exact isEdge_eq_false_iff.mpr (lt_of_le_of_ne hlow (Ne.symm hnotSpace))

/-! ## Other queries, fragments and ends -/

/-- A query and a fragment do not count. -/
theorem IsHierarchy.withEnd (h : IsHierarchy u) (query fragment : Option (List Char)) :
    IsHierarchy { u with query, fragment } := by
  cases h with
  | @authority host parts hgiven hnotFile hpath hread =>
    have hagain : IsAuthority { u with query, fragment } host :=
      ⟨hgiven.given, hgiven.read, hgiven.username, hgiven.password, hgiven.port, hgiven.alone⟩
    exact .authority hagain hnotFile hpath hread
  | file hisFile hbare hgiven hforeign hpath hread =>
    exact .file hisFile hbare hgiven hforeign hpath hread
  | rooted hplain hbare hgiven hpath hread => exact .rooted hplain hbare hgiven hpath hread
  | rootless hplain hbare hgiven hpath hfree hroot hmarks =>
    exact .rootless hplain hbare hgiven hpath hfree hroot hmarks

/-- A text without the spaces at its end. -/
def dropEnd (text : List Char) : List Char := (text.reverse.dropWhile (· == ' ')).reverse

theorem dropEnd_prefix (text : List Char) : dropEnd text <+: text := by
  rw [← List.reverse_suffix, dropEnd, List.reverse_reverse]
  exact List.dropWhile_suffix _

/-- The spaces at the end of an undivided text may be left out. -/
theorem IsHierarchy.dropSpaces (h : IsHierarchy u) :
    IsHierarchy { u with path := u.path.dropSpaces } := by
  have hdivided {parts : List (List Char)} (hpath : u.path = .segments parts) :
      IsHierarchy { u with path := u.path.dropSpaces } := by
    have hsame : u.path.dropSpaces = u.path := by rw [hpath]; rfl
    rw [hsame]
    exact h
  cases h with
  | authority _ _ hpath => exact hdivided hpath
  | file _ _ _ _ hpath => exact hdivided hpath
  | rooted _ _ _ hpath => exact hdivided hpath
  | @rootless text hplain hbare hgiven hpath hfree hroot hmarks =>
    have hshorter := dropEnd_prefix text
    have heq : u.path.dropSpaces = .rootless (dropEnd text) := by rw [hpath]; rfl
    rw [heq]
    refine .rootless hplain hbare hgiven rfl (fun c hc => hfree c (hshorter.subset hc))
      (fun hfirst => ?_)
      ⟨fun hmem => hmarks.1 (hshorter.subset hmem), fun hmem => hmarks.2 (hshorter.subset hmem)⟩
    obtain ⟨more, hrest⟩ := hshorter
    rw [← hrest, List.head?_append, hfirst] at hroot
    exact hroot rfl

end Amqp.Url
