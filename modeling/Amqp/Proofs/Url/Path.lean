import Amqp.Proofs.Text.Ascii
import Amqp.Proofs.Text.Split
import Amqp.Proofs.Url.Percent
import Amqp.Url.Basic

/-!
# Paths that are read again

Reading resolves the dots of a path. What is left has none, so that it stays as it is when it is
read again, and it is still one segment behind each slash.
-/

namespace Amqp.Url

variable {special isFile : Bool} {scheme cs segment : List Char} {parts rest : List (List Char)}

/-- A segment as it is written: encoded, and without the slashes that would end it. -/
structure IsSegment (special : Bool) (segment : List Char) : Prop where
  free : Free pathSet segment
  slash : '/' ∉ segment
  /-- Where a backslash counts as a slash, there is none either. -/
  backslash : special → '\\' ∉ segment

/-- Segments that stay as they are when they are read again. -/
structure Settled (special isFile : Bool) (parts : List (List Char)) : Prop where
  segment : ∀ part ∈ parts, IsSegment special part
  dots : ∀ part ∈ parts, isSingleDot part = false ∧ isDoubleDot part = false
  /-- The drive of a file is written with a colon. -/
  drive : isFile → ∀ part, parts.head? = some part → isDriveLetter part → ∃ c, part = [c, ':']

theorem isSegment_nil : IsSegment special [] where
  free := free_nil
  slash := List.not_mem_nil
  backslash _ := List.not_mem_nil

/-- A part between slashes is a segment once it is encoded. -/
theorem isSegment_percentEncode (hslash : '/' ∉ cs) (hbackslash : special → '\\' ∉ cs) :
    IsSegment special (percentEncode pathSet cs) where
  free := free_percentEncode free_pathSet_escapes cs
  slash := fun h => by
    obtain ⟨hmem, -⟩ | hescape := mem_percentEncode h
    · exact hslash hmem
    · exact absurd hescape (by decide)
  backslash := fun hs h => by
    obtain ⟨hmem, -⟩ | hescape := mem_percentEncode h
    · exact hbackslash hs hmem
    · exact absurd hescape (by decide)

/-! ## What reading leaves -/

theorem settled_nil : Settled special isFile [] where
  segment _ h := by cases h
  dots _ h := by cases h
  drive _ _ h := by cases h

/-- Segments that begin as others did are settled as they were. -/
theorem Settled.of_prefix (h : Settled special isFile parts) (hrest : rest <+: parts) :
    Settled special isFile rest where
  segment part hpart := h.segment part (hrest.subset hpart)
  dots part hpart := h.dots part (hrest.subset hpart)
  drive hfile part hpart := by
    obtain ⟨more, rfl⟩ := hrest
    refine h.drive hfile part ?_
    rw [List.head?_append, hpart]
    rfl

theorem prefix_shorten (isFile : Bool) (parts : List (List Char)) :
    shorten isFile parts <+: parts := by
  rw [shorten.eq_def]
  split
  · split
    · exact List.prefix_rfl
    · exact List.nil_prefix
  · exact List.dropLast_prefix parts

theorem Settled.shorten (h : Settled special isFile parts) :
    Settled special isFile (shorten isFile parts) :=
  h.of_prefix (prefix_shorten isFile parts)

/-- One more segment without dots, which is no drive unless it is written as one. -/
theorem Settled.concat (h : Settled special isFile parts) (hsegment : IsSegment special segment)
    (hdots : isSingleDot segment = false ∧ isDoubleDot segment = false)
    (hdrive : isFile → parts = [] → isDriveLetter segment → ∃ c, segment = [c, ':']) :
    Settled special isFile (parts ++ [segment]) where
  segment part hpart := by
    obtain hpart | hpart := List.mem_append.mp hpart
    · exact h.segment part hpart
    · exact List.mem_singleton.mp hpart ▸ hsegment
  dots part hpart := by
    obtain hpart | hpart := List.mem_append.mp hpart
    · exact h.dots part hpart
    · exact List.mem_singleton.mp hpart ▸ hdots
  drive hfile part hpart hletter := by
    cases parts with
    | nil =>
      obtain rfl := Option.some_inj.mp hpart
      exact hdrive hfile rfl hletter
    | cons first parts => exact h.drive hfile part hpart hletter

theorem Settled.concat_nil (h : Settled special isFile parts) :
    Settled special isFile (parts ++ [[]]) :=
  h.concat isSegment_nil (by decide) fun _ _ hletter => by cases hletter

theorem isDriveLetter_eq_true (h : isDriveLetter segment) :
    ∃ c d, segment = [c, d] ∧ c.isAlpha ∧ (d = ':' ∨ d = '|') := by
  rw [isDriveLetter.eq_def] at h
  split at h
  · rename_i c d
    simp only [Bool.and_eq_true, Bool.or_eq_true, beq_iff_eq] at h
    exact ⟨c, d, rfl, h.1, h.2⟩
  · cases h

/-- A drive is a segment without dots, with a colon as well. -/
theorem dots_drive (c : Char) : isSingleDot [c, ':'] = false ∧ isDoubleDot [c, ':'] = false := by
  simp [isSingleDot, isDoubleDot, lower]

theorem isSegment_drive {c d : Char} (h : IsSegment special [c, d]) :
    IsSegment special [c, ':'] where
  free := List.forall_mem_cons.mpr ⟨h.free c List.mem_cons_self, free_of_all rfl⟩
  slash hmem := by
    obtain rfl | hmem := List.mem_cons.mp hmem
    · exact h.slash List.mem_cons_self
    · exact absurd hmem (by decide)
  backslash hs hmem := by
    obtain rfl | hmem := List.mem_cons.mp hmem
    · exact h.backslash hs List.mem_cons_self
    · exact absurd hmem (by decide)

/-- How a segment without dots is added: a drive in front with a colon, anything else as it is. -/
theorem addSegment_cases (isFile : Bool) (parts : List (List Char)) (segment : List Char) :
    (∃ c d, segment = [c, d] ∧ isFile ∧ parts = [] ∧ isDriveLetter segment ∧
      addSegment isFile parts segment = parts ++ [[c, ':']]) ∨
    ¬(isFile ∧ parts = [] ∧ isDriveLetter segment) ∧
      addSegment isFile parts segment = parts ++ [segment] := by
  by_cases hdrive : isFile ∧ parts = [] ∧ isDriveLetter segment
  · obtain ⟨hfile, rfl, hletter⟩ := hdrive
    obtain ⟨c, d, rfl, -, -⟩ := isDriveLetter_eq_true hletter
    refine .inl ⟨c, d, rfl, hfile, rfl, hletter, ?_⟩
    rw [addSegment]
    · rfl
    · rw [hfile, hletter]
      rfl
  · refine .inr ⟨hdrive, ?_⟩
    have hplain : (isFile && parts.isEmpty && isDriveLetter segment) = false := by
      rw [Bool.eq_false_iff]
      intro h
      rw [Bool.and_eq_true, Bool.and_eq_true, List.isEmpty_iff] at h
      exact hdrive ⟨h.1.1, h.1.2, h.2⟩
    rw [addSegment]
    exact fun _ _ h _ => Bool.false_ne_true (hplain.symm.trans h)

/-- Adding a segment without dots leaves segments settled. -/
theorem Settled.addSegment (h : Settled special isFile parts) (hsegment : IsSegment special segment)
    (hdots : isSingleDot segment = false ∧ isDoubleDot segment = false) :
    Settled special isFile (addSegment isFile parts segment) := by
  obtain ⟨c, d, rfl, -, -, -, hadded⟩ | ⟨hplain, hadded⟩ := addSegment_cases isFile parts segment
  · rw [hadded]
    exact h.concat (isSegment_drive hsegment) (dots_drive c) fun _ _ _ => ⟨c, rfl⟩
  · rw [hadded]
    exact h.concat hsegment hdots fun hfile hempty hletter => absurd ⟨hfile, hempty, hletter⟩ hplain

/-- What reading leaves is settled. -/
theorem settled_resolveSegments (h : Settled special isFile parts)
    (hrest : ∀ segment ∈ rest, IsSegment special segment) :
    Settled special isFile (resolveSegments special isFile parts rest) := by
  induction rest generalizing parts with
  | nil => exact h
  | cons segment rest ih =>
    obtain ⟨hsegment, hrest⟩ := List.forall_mem_cons.mp hrest
    cases rest with
    | nil =>
      rw [resolveSegments]
      split
      · split
        · exact h.shorten.concat_nil
        · exact h
      · rename_i hnotDouble
        split
        · exact h.concat_nil
        · rename_i hnotSingle
          exact h.addSegment hsegment
            ⟨Bool.eq_false_iff.mpr hnotSingle, Bool.eq_false_iff.mpr hnotDouble⟩
    | cons next rest =>
      rw [resolveSegments]
      · split
        · exact ih h.shorten hrest
        · rename_i hnotDouble
          split
          · exact ih h hrest
          · rename_i hnotSingle
            exact ih (h.addSegment hsegment
              ⟨Bool.eq_false_iff.mpr hnotSingle, Bool.eq_false_iff.mpr hnotDouble⟩) hrest
      · exact List.cons_ne_nil _ _

/-- Where a scheme is special, something is always left. -/
theorem resolveSegments_ne_nil (hspecial : special) (hrest : rest ≠ []) :
    resolveSegments special isFile parts rest ≠ [] := by
  induction rest generalizing parts with
  | nil => exact absurd rfl hrest
  | cons segment rest ih =>
    cases rest with
    | nil =>
      rw [resolveSegments]
      split
      · rw [hspecial, Bool.true_or, if_pos rfl]
        exact List.concat_ne_nil _ _
      · split
        · exact List.concat_ne_nil _ _
        · obtain ⟨c, d, -, -, -, -, hadded⟩ | ⟨-, hadded⟩ := addSegment_cases isFile parts segment
          · rw [hadded]
            exact List.concat_ne_nil _ _
          · rw [hadded]
            exact List.concat_ne_nil _ _
    | cons next rest =>
      have hmore := List.cons_ne_nil next rest
      rw [resolveSegments]
      · split
        · exact ih hmore
        · split
          · exact ih hmore
          · exact ih hmore
      · exact hmore

/-! ## Reading again -/

/-- Settled segments are added as they are. -/
theorem addSegment_of_settled (h : Settled special isFile (parts ++ segment :: rest)) :
    addSegment isFile parts segment = parts ++ [segment] := by
  obtain ⟨c, d, rfl, hfile, rfl, hletter, hadded⟩ | ⟨-, hadded⟩ :=
    addSegment_cases isFile parts segment
  · obtain ⟨e, hcolon⟩ := h.drive hfile _ rfl hletter
    cases hcolon
    exact hadded
  · exact hadded

/-- Settled segments are read as they are. -/
theorem resolveSegments_of_settled (h : Settled special isFile (parts ++ rest))
    (hrest : rest ≠ []) : resolveSegments special isFile parts rest = parts ++ rest := by
  induction rest generalizing parts with
  | nil => exact absurd rfl hrest
  | cons segment rest ih =>
    obtain ⟨hsingle, hdouble⟩ := h.dots segment (List.mem_append_right _ List.mem_cons_self)
    have hadded := addSegment_of_settled h
    cases rest with
    | nil => rw [resolveSegments, hdouble, hsingle, if_neg Bool.false_ne_true,
        if_neg Bool.false_ne_true, hadded]
    | cons next rest =>
      rw [resolveSegments, hdouble, hsingle, if_neg Bool.false_ne_true, if_neg Bool.false_ne_true,
        hadded, ih _ (List.cons_ne_nil _ _), List.append_assoc, List.singleton_append]
      · rwa [List.append_assoc, List.singleton_append]
      · exact List.cons_ne_nil _ _

/-! ## Texts of paths -/

/-- Segments of a path that was read under the scheme. -/
structure IsRead (scheme : List Char) (parts : List (List Char)) : Prop where
  settled : Settled (isSpecial scheme) (scheme == "file".toList) parts
  filled : isSpecial scheme → parts ≠ []

/-- What is read behind a slash. -/
theorem readSegments_eq (h : isSpecial scheme → '\\' ∉ cs) :
    ∃ parts, readSegments scheme cs = .segments parts ∧ IsRead scheme parts := by
  refine ⟨_, rfl, settled_resolveSegments settled_nil ?_, fun hspecial => ?_⟩
  · intro segment hsegment
    obtain ⟨part, hpart, rfl⟩ := List.mem_map.mp hsegment
    refine isSegment_percentEncode (Text.notMem_of_mem_splitOn hpart) fun hspecial hmem => ?_
    exact h hspecial (Text.mem_of_mem_splitOn hpart hmem)
  · exact resolveSegments_ne_nil hspecial fun hnone =>
      Text.splitOn_ne_nil '/' cs (List.map_eq_nil_iff.mp hnone)

/-- What is read behind an authority. -/
theorem readPath_eq (h : isSpecial scheme → '\\' ∉ cs) :
    ∃ parts, readPath scheme cs = .segments parts ∧ IsRead scheme parts := by
  rw [readPath.eq_def]
  split
  · by_cases hspecial : isSpecial scheme
    · exact ⟨_, if_pos hspecial, settled_nil.concat_nil, fun _ => List.cons_ne_nil _ _⟩
    · exact ⟨_, if_neg hspecial, settled_nil, fun hs => absurd hs hspecial⟩
  · exact readSegments_eq fun hspecial hmem => h hspecial (List.mem_cons_of_mem _ hmem)
  · exact readSegments_eq h

/-- Segments that were split are read as they are. -/
theorem splitOn_segments (h : IsRead scheme parts) (hfilled : parts ≠ []) :
    (Text.splitOn '/' (['/'].intercalate parts)).map (percentEncode pathSet) = parts := by
  rw [Text.splitOn_intercalate (fun part hpart => (h.settled.segment part hpart).slash) hfilled,
    List.map_congr_left fun part hpart => percentEncode_of_free (h.settled.segment part hpart).free]
  exact List.map_id' parts

theorem readSegments_intercalate (h : IsRead scheme parts) (hfilled : parts ≠ []) :
    readSegments scheme (['/'].intercalate parts) = .segments parts := by
  rw [readSegments, splitOn_segments h hfilled]
  exact congrArg Path.segments (resolveSegments_of_settled h.settled hfilled)

/-- A dot in front of segments is passed over. -/
theorem readSegments_dot (h : IsRead scheme parts) (hfilled : parts ≠ []) :
    readSegments scheme ('.' :: '/' :: ['/'].intercalate parts) = .segments parts := by
  have hdot : percentEncode pathSet ['.'] = ['.'] := by decide
  have hsplit : Text.splitOn '/' ('.' :: '/' :: ['/'].intercalate parts) =
      ['.'] :: Text.splitOn '/' (['/'].intercalate parts) := by
    simp [Text.splitOn]
  rw [readSegments, hsplit, List.map_cons, hdot, splitOn_segments h hfilled, resolveSegments]
  · exact congrArg Path.segments (resolveSegments_of_settled h.settled hfilled)
  · exact hfilled

theorem chars_segments (hfilled : parts ≠ []) :
    (Path.segments parts).chars = '/' :: ['/'].intercalate parts := by
  induction parts with
  | nil => exact absurd rfl hfilled
  | cons part parts ih =>
    cases parts with
    | nil => simp [Path.chars]
    | cons next parts =>
      have hrest := ih (List.cons_ne_nil _ _)
      rw [Path.chars] at hrest ⊢
      rw [List.flatMap_cons, hrest, List.intercalate_cons_cons]
      simp

/-- A path behind an authority reads back from what is written for it. -/
theorem readPath_chars (h : IsRead scheme parts) :
    readPath scheme (Path.segments parts).chars = .segments parts := by
  by_cases hfilled : parts = []
  · subst hfilled
    have hplain : ¬isSpecial scheme := fun hspecial => h.filled hspecial rfl
    rw [Path.chars, List.flatMap_nil, readPath, if_neg hplain]
  · rw [chars_segments hfilled, readPath, readSegments_intercalate h hfilled]

/-- What is written for segments. -/
theorem mem_chars_segments {c : Char} (h : c ∈ (Path.segments parts).chars) :
    c = '/' ∨ ∃ part ∈ parts, c ∈ part := by
  obtain ⟨part, hpart, hc⟩ := List.mem_flatMap.mp h
  obtain rfl | hc := List.mem_cons.mp hc
  · exact .inl rfl
  · exact .inr ⟨part, hpart, hc⟩

/-- There is nothing to encode in a path of segments. -/
theorem IsRead.free (h : IsRead scheme parts) : Free pathSet (Path.segments parts).chars := by
  intro c hc
  obtain rfl | ⟨part, hpart, hc⟩ := mem_chars_segments hc
  · rfl
  · exact (h.settled.segment part hpart).free c hc

/-- Where a backslash counts as a slash, there is none in a path. -/
theorem IsRead.notMem_backslash (h : IsRead scheme parts) (hspecial : isSpecial scheme) :
    '\\' ∉ (Path.segments parts).chars := by
  intro hc
  obtain heq | ⟨part, hpart, hc⟩ := mem_chars_segments hc
  · exact absurd heq (by decide)
  · exact (h.settled.segment part hpart).backslash hspecial hc

end Amqp.Url
