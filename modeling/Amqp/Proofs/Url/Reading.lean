import Amqp.Proofs.Url.Hierarchy
import Amqp.Proofs.Url.Query

/-!
# URLs that are read again

What a URL is once it is read, and that it is read again from what is written for it.
-/

namespace Amqp.Url

variable {cs scheme rest : List Char} {c : Char} {u : Url}

/-! ## Characters that count -/

theorem dropWhile_of_head? {p : Char → Bool} (h : ∀ c, cs.head? = some c → p c = false) :
    cs.dropWhile p = cs := by
  cases cs with
  | nil => rfl
  | cons c cs => rw [List.dropWhile_cons_of_neg (by rw [h c rfl]; exact Bool.false_ne_true)]

/-- A text without controls, and without spaces at its ends, counts as it is. -/
theorem clean_of_low (hfirst : ∀ c, cs.head? = some c → isEdge c = false)
    (hlast : ∀ c, cs.getLast? = some c → isEdge c = false) (hlow : ∀ c ∈ cs, 0x20 ≤ c.toNat) :
    clean cs = cs := by
  have hback : ∀ c, cs.reverse.head? = some c → isEdge c = false := by
    rw [List.head?_reverse]
    exact hlast
  rw [clean, dropWhile_of_head? hfirst, dropWhile_of_head? hback, List.reverse_reverse,
    List.filter_eq_self]
  intro c hc
  have hhigh := hlow c hc
  simp only [Bool.and_eq_true, bne_iff_ne, ne_eq, ← Char.toNat_inj, Char.reduceToNat]
  omega

/-- What counts does not end in a space. -/
theorem isEdge_of_getLast?_clean (h : (clean cs).getLast? = some c) : isEdge c = false := by
  rw [clean] at h
  cases htrimmed : (cs.dropWhile isEdge).reverse.dropWhile isEdge with
  | nil =>
    rw [htrimmed] at h
    cases h
  | cons d more =>
    have hinner : isEdge d = false := by
      have hstops := List.head?_dropWhile_not isEdge (cs.dropWhile isEdge).reverse
      rw [htrimmed] at hstops
      exact hstops
    have hkept : (d != '\t' && d != '\n' && d != '\x0d') = true := by
      rw [isEdge_eq_false_iff] at hinner
      simp only [Bool.and_eq_true, bne_iff_ne, ne_eq, ← Char.toNat_inj, Char.reduceToNat]
      omega
    rw [htrimmed, List.reverse_cons, List.filter_append, List.filter_singleton, hkept, cond_true,
      List.getLast?_concat] at h
    exact Option.some_inj.mp h ▸ hinner

/-! ## Schemes -/

/-- What a scheme is once it is read: a small letter, and letters, digits and three marks. -/
structure IsScheme (scheme : List Char) : Prop where
  letter : ∃ c rest, scheme = c :: rest ∧ c.isAlpha
  chars : ∀ c ∈ scheme, isSchemeChar c
  small : lower scheme = scheme

theorem isSchemeChar_toLower (h : isSchemeChar c) : isSchemeChar c.toLower := by
  simp only [isSchemeChar, Bool.or_eq_true, beq_iff_eq] at h
  obtain ((halphanum | rfl) | rfl) | rfl := h
  · rw [isSchemeChar, Text.isAlphanum_toLower halphanum]
    rfl
  · rfl
  · rfl
  · rfl

theorem lower_lower (cs : List Char) : lower (lower cs) = lower cs := by
  rw [lower, lower, List.map_map]
  exact List.map_congr_left fun c _ => Text.toLower_toLower c

theorem splitScheme?_eq_some (h : splitScheme? cs = some (scheme, rest)) :
    IsScheme scheme ∧ ∃ front, cs = front ++ rest := by
  rw [splitScheme?] at h
  split at h
  · rename_i c name behind hfront hafter
    obtain ⟨hletter, h⟩ := Option.ite_none_right_eq_some.mp h
    obtain ⟨rfl, rfl⟩ := Prod.mk.inj (Option.some_inj.mp h)
    refine ⟨⟨⟨_, _, rfl, Text.isAlpha_toLower hletter⟩, fun d hd => ?_, lower_lower _⟩,
      c :: name ++ [':'], ?_⟩
    · obtain ⟨e, he, rfl⟩ := List.mem_map.mp hd
      rw [← hfront] at he
      exact isSchemeChar_toLower (List.mem_takeWhile_imp he)
    · rw [List.append_assoc, List.singleton_append, ← hfront, ← hafter,
        List.takeWhile_append_dropWhile]
  · cases h

/-- A scheme is cut off at its colon. -/
theorem splitScheme?_append (h : IsScheme scheme) (rest : List Char) :
    splitScheme? (scheme ++ ':' :: rest) = some (scheme, rest) := by
  have hfront : (scheme ++ ':' :: rest).takeWhile isSchemeChar = scheme := by
    rw [List.takeWhile_append_of_pos h.chars, List.takeWhile_cons_of_neg (by decide),
      List.append_nil]
  have hafter : (scheme ++ ':' :: rest).dropWhile isSchemeChar = ':' :: rest := by
    rw [List.dropWhile_append_of_pos h.chars, List.dropWhile_cons_of_neg (by decide)]
  obtain ⟨c, name, rfl, hletter⟩ := h.letter
  rw [splitScheme?, hfront, hafter]
  simp only [if_pos hletter, h.small]

/-! ## What is read -/

/-- What the query of a scheme must not hold. -/
def querySetOf (scheme : List Char) : Char → Bool :=
  if isSpecial scheme then specialQuerySet else querySet

/-- What a URL is once it is read. -/
structure Sound (u : Url) : Prop where
  scheme : IsScheme u.scheme
  hierarchy : IsHierarchy u
  query : ∀ cs, u.query = some cs → Free (querySetOf u.scheme) cs
  fragment : ∀ cs, u.fragment = some cs → Free fragmentSet cs
  /-- Spaces do not count at the end. -/
  ends : u.query = none → u.fragment = none → ∀ text, u.path = .rootless text →
    text.getLast? ≠ some ' '

theorem free_querySetOf_escapes (scheme : List Char) : Free (querySetOf scheme) escapes := by
  rw [querySetOf]
  split
  · exact free_specialQuerySet_escapes
  · exact free_querySet_escapes

theorem free_querySetOf (scheme : List Char) (h : Free specialQuerySet cs) :
    Free (querySetOf scheme) cs := by
  rw [querySetOf]
  split
  · exact h
  · intro c hc
    have hfree := h c hc
    rw [specialQuerySet, Bool.or_eq_false_iff] at hfree
    exact hfree.1

/-- The parts that a URL is read from. -/
theorem parse?_eq_some {text : String} (h : parse? text = some u) :
    ∃ rest query fragment w, splitScheme? (clean text.toList) = some
        (u.scheme, rest ++ markedChars '?' query ++ markedChars '#' fragment) ∧
      ('#' ∉ rest ∧ '?' ∉ rest) ∧ readHierarchy? u.scheme rest = some w ∧
      u = { w with
        query := query.map (percentEncode (querySetOf u.scheme))
        fragment := fragment.map (percentEncode fragmentSet) } := by
  simp only [parse?, Option.bind_eq_bind, Option.bind_eq_some_iff] at h
  obtain ⟨⟨scheme, whole⟩, hsplit, h⟩ := h
  rcases hfragmentCut : cutAt '#' whole with ⟨front, fragment⟩
  rcases hqueryCut : cutAt '?' front with ⟨rest, query⟩
  simp only [hfragmentCut, hqueryCut, Option.some_inj] at h
  obtain ⟨w, hw, rfl⟩ := h
  obtain ⟨hhash, rfl⟩ := eq_of_cutAt hfragmentCut
  obtain ⟨hmark, rfl⟩ := eq_of_cutAt hqueryCut
  have hmarks : '#' ∉ rest ∧ '?' ∉ rest := ⟨fun hmem => hhash (List.mem_append_left _ hmem), hmark⟩
  obtain ⟨-, rfl, -⟩ := isHierarchy_of_readHierarchy? hmarks hw
  exact ⟨rest, query, fragment, w, hsplit, hmarks, hw, rfl⟩

/-- What a URL is once it is read. -/
theorem sound_of_parse? {text : String} (h : parse? text = some u) : u.Sound := by
  obtain ⟨rest, query, fragment, w, hsplit, hmarks, hw, heq⟩ := parse?_eq_some h
  obtain ⟨hscheme, front, hwhole⟩ := splitScheme?_eq_some hsplit
  obtain ⟨hhierarchy, hbase⟩ := isHierarchy_of_readHierarchy? hmarks hw
  have hparts : u.query = query.map (percentEncode (querySetOf u.scheme)) ∧
      u.fragment = fragment.map (percentEncode fragmentSet) ∧ u.path = w.path := by
    rw [heq]
    exact ⟨by rw [hbase.scheme], rfl, rfl⟩
  obtain ⟨hquery, hfragment, hpath⟩ := hparts
  refine ⟨hscheme, ?_, fun cs hcs => ?_, fun cs hcs => ?_,
    fun hnoQuery hnoFragment raw hrootless hlast => ?_⟩
  · rw [heq]
    exact hhierarchy.withEnd _ _
  · obtain ⟨raw, -, rfl⟩ := Option.map_eq_some_iff.mp (hquery.symm.trans hcs)
    exact free_percentEncode (free_querySetOf_escapes _) raw
  · obtain ⟨raw, -, rfl⟩ := Option.map_eq_some_iff.mp (hfragment.symm.trans hcs)
    exact free_percentEncode free_fragmentSet_escapes raw
  · obtain rfl := Option.map_eq_none_iff.mp (hquery.symm.trans hnoQuery)
    obtain rfl := Option.map_eq_none_iff.mp (hfragment.symm.trans hnoFragment)
    -- Without a query and a fragment, the undivided text is the end of what counts.
    rw [rootless_of_readHierarchy? hmarks hw (hpath.symm.trans hrootless)] at hlast
    obtain hlast | hescape := getLast?_percentEncode hlast
    · have hfilled : rest ≠ [] := fun hempty => by rw [hempty] at hlast; cases hlast
      have hending : (clean text.toList).getLast? = some ' ' := by
        rw [hwhole, markedChars, markedChars, List.append_nil, List.append_nil,
          List.getLast?_append_of_ne_nil _ hfilled, hlast]
      exact absurd (isEdge_of_getLast?_clean hending) (by decide)
    · exact absurd hescape (by decide)

/-! ## What is written -/

theorem chars_eq (u : Url) : u.chars = u.scheme ++
    ':' :: (u.hierarchyText ++ markedChars '?' u.query ++ markedChars '#' u.fragment) := by
  simp only [chars, hierarchyText, List.append_assoc, List.cons_append]

theorem isEdge_of_isSchemeChar (h : isSchemeChar c) : isEdge c = false := by
  simp only [isSchemeChar, Bool.or_eq_true, beq_iff_eq] at h
  obtain ((halphanum | rfl) | rfl) | rfl := h
  · have hrange := Text.isAlphanum_iff.mp halphanum
    rw [isEdge_eq_false_iff]
    omega
  · rfl
  · rfl
  · rfl

theorem isEdge_of_querySetOf (h : querySetOf scheme c = false) : isEdge c = false := by
  have hfree : querySet c = false := by
    rw [querySetOf] at h
    split at h
    · rw [specialQuerySet, Bool.or_eq_false_iff] at h
      exact h.1
    · exact h
  rw [isEdge_eq_false_iff]
  simp only [querySet, controlSet, Bool.or_eq_false_iff, decide_eq_false_iff_not,
    List.contains_eq_mem, List.mem_cons, List.not_mem_nil, or_false, ← Char.toNat_inj,
    Char.reduceToNat] at hfree
  omega

theorem isEdge_of_fragmentSet (h : fragmentSet c = false) : isEdge c = false := by
  rw [isEdge_eq_false_iff]
  simp only [fragmentSet, controlSet, Bool.or_eq_false_iff, decide_eq_false_iff_not,
    List.contains_eq_mem, List.mem_cons, List.not_mem_nil, or_false, ← Char.toNat_inj,
    Char.reduceToNat] at h
  omega

/-- What stands behind a mark holds no spaces and no controls. -/
theorem isEdge_of_mem_markedChars {mark : Char} {set : Char → Bool} {part : Option (List Char)}
    (hmark : isEdge mark = false) (hset : ∀ c, set c = false → isEdge c = false)
    (hfree : ∀ cs, part = some cs → Free set cs) (h : c ∈ markedChars mark part) :
    isEdge c = false := by
  cases part with
  | none => cases h
  | some cs =>
    obtain rfl | h := List.mem_cons.mp h
    · exact hmark
    · exact hset c (hfree cs rfl c h)

theorem markedChars_eq_nil {mark : Char} {part : Option (List Char)}
    (h : markedChars mark part = []) : part = none := by
  cases part with
  | none => rfl
  | some cs => cases h

/-- The query and the fragment, behind their marks. -/
def ending (u : Url) : List Char := markedChars '?' u.query ++ markedChars '#' u.fragment

theorem Sound.isEdge_of_mem_ending (h : u.Sound) (hc : c ∈ u.ending) : isEdge c = false := by
  obtain hc | hc := List.mem_append.mp hc
  · exact isEdge_of_mem_markedChars rfl (fun _ => isEdge_of_querySetOf) h.query hc
  · exact isEdge_of_mem_markedChars rfl (fun _ => isEdge_of_fragmentSet) h.fragment hc

theorem chars_eq_ending (u : Url) : u.chars = u.scheme ++ ':' :: u.hierarchyText ++ u.ending := by
  rw [chars_eq, ending, List.append_assoc, List.append_assoc]
  rfl

/-- No control character is written. -/
theorem Sound.low (h : u.Sound) : ∀ c ∈ u.chars, 0x20 ≤ c.toNat := by
  have hhigh {c : Char} (hedge : isEdge c = false) : 0x20 ≤ c.toNat :=
    (isEdge_eq_false_iff.mp hedge).le
  intro c hc
  rw [chars_eq_ending, List.mem_append, List.mem_append, List.mem_cons] at hc
  obtain (hc | rfl | hc) | hc := hc
  · exact hhigh (isEdge_of_isSchemeChar (h.scheme.chars c hc))
  · decide
  · exact h.hierarchy.low c hc
  · exact hhigh (h.isEdge_of_mem_ending hc)

theorem Sound.first (h : u.Sound) (hc : u.chars.head? = some c) : isEdge c = false := by
  obtain ⟨d, name, hscheme, -⟩ := h.scheme.letter
  have hmember : d ∈ u.scheme := by rw [hscheme]; exact List.mem_cons_self
  rw [chars_eq, hscheme] at hc
  obtain rfl := Option.some_inj.mp hc
  exact isEdge_of_isSchemeChar (h.scheme.chars d hmember)

/-- What is written does not end in a space. -/
theorem Sound.last (h : u.Sound) (hc : u.chars.getLast? = some c) : isEdge c = false := by
  rw [chars_eq_ending] at hc
  by_cases hfilled : u.ending = []
  · obtain ⟨hnoQuery, hnoFragment⟩ := List.append_eq_nil_iff.mp hfilled
    have hends := h.ends (markedChars_eq_nil hnoQuery) (markedChars_eq_nil hnoFragment)
    rw [hfilled, List.append_nil, List.getLast?_append_cons] at hc
    cases htext : u.hierarchyText with
    | nil =>
      rw [htext] at hc
      obtain rfl := Option.some_inj.mp hc
      rfl
    | cons d rest =>
      rw [htext, List.getLast?_cons_cons, ← htext] at hc
      exact h.hierarchy.last hends hc
  · rw [List.getLast?_append_of_ne_nil _ hfilled] at hc
    exact h.isEdge_of_mem_ending (List.mem_of_getLast? hc)

theorem Sound.clean_chars (h : u.Sound) : clean u.chars = u.chars :=
  clean_of_low (fun _ => h.first) (fun _ => h.last) h.low

/-! ## Reading again -/

theorem map_percentEncode_of_free {set : Char → Bool} {part : Option (List Char)}
    (hfree : ∀ cs, part = some cs → Free set cs) : part.map (percentEncode set) = part := by
  cases part with
  | none => rfl
  | some cs => exact congrArg some (percentEncode_of_free (hfree cs rfl))

theorem Sound.notMem_query (h : u.Sound) : '#' ∉ markedChars '?' u.query := by
  intro hmem
  cases hquery : u.query with
  | none =>
    rw [hquery] at hmem
    cases hmem
  | some cs =>
    have hfree := h.query cs hquery
    have hencoded : querySetOf u.scheme '#' = true := by
      rw [querySetOf]
      split <;> rfl
    rw [hquery] at hmem
    exact notMem_of_free hfree hencoded ((List.mem_cons.mp hmem).resolve_left (by decide))

/-- A URL is read again from what is written for it. -/
theorem Sound.parse?_href (h : u.Sound) : parse? u.href = some { u with path := u.pathAgain } := by
  obtain ⟨hhash, hmark⟩ := h.hierarchy.notMem_marks
  have hqueryHash : '#' ∉ u.hierarchyText ++ markedChars '?' u.query :=
    fun hmem => (List.mem_append.mp hmem).elim hhash h.notMem_query
  have hsplit := splitScheme?_append h.scheme
    (u.hierarchyText ++ markedChars '?' u.query ++ markedChars '#' u.fragment)
  have hquery := map_percentEncode_of_free h.query
  have hfragment := map_percentEncode_of_free h.fragment
  rw [← chars_eq] at hsplit
  rw [querySetOf] at hquery
  simp only [parse?, href, String.toList_ofList, h.clean_chars, hsplit,
    cutAt_markedChars hqueryHash, cutAt_markedChars hmark, Option.bind_eq_bind, Option.bind_some,
    hquery, hfragment, readHierarchy?_hierarchyText h.hierarchy]
  rfl

/-! ## One more pair -/

theorem Sound.addPair (h : u.Sound) (p : Pair) : (u.addPair p).Sound where
  scheme := h.scheme
  hierarchy := by
    rw [Url.addPair]
    split
    · exact h.hierarchy.withEnd _ _
    · exact h.hierarchy.dropSpaces.withEnd _ _
  query cs hcs := by
    obtain rfl := Option.some_inj.mp hcs
    exact free_querySetOf _ (free_queryOf _)
  fragment := h.fragment
  ends hnone := by cases hnone

theorem pairs_addPair (u : Url) (p : Pair) : (u.addPair p).pairs = u.pairs ++ [p] :=
  pairsOf_queryOf _

end Amqp.Url
