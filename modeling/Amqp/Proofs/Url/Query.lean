import Amqp.Proofs.Text.Ascii
import Amqp.Proofs.Text.Split
import Amqp.Proofs.Url.Percent
import Amqp.Url.Query

/-!
# Queries that are written anew

Every list of pairs reads back from the query that is written for it, whatever characters its names
and values hold, and a query that is written has nothing left to encode.
-/

namespace Amqp.Url

variable {cs : List Char} {c : Char}

/-- Characters that are written as they are stand in every query. -/
theorem specialQuerySet_of_isPlainPart (h : isPlainPart c) : specialQuerySet c = false := by
  simp only [isPlainPart, Bool.or_eq_true, List.contains_iff_mem] at h
  obtain halphanum | hmark := h
  · have hrange := Text.isAlphanum_iff.mp halphanum
    simp only [specialQuerySet, querySet, controlSet, Bool.or_eq_false_iff, decide_eq_false_iff_not,
      List.contains_eq_mem, List.mem_cons, List.not_mem_nil, or_false, beq_eq_false_iff_ne, ne_eq,
      ← Char.toNat_inj, Char.reduceToNat]
    omega
  · have hfree : Free specialQuerySet ['*', '-', '.', '_'] := free_of_all rfl
    exact hfree c hmark

/-! ## Names and values -/

/-- A space for a plus sign. -/
def spaceForPlus (c : Char) : Char := if c = '+' then ' ' else c

/-- How one character of a name or value is written. -/
def encodeOne (c : Char) : List Char :=
  if c = ' ' then ['+']
  else if isPlainPart c then [c]
  else (Utf8.encodeChar c).flatMap percentByte

theorem encodePart_eq (cs : List Char) : encodePart cs = cs.flatMap encodeOne := rfl

theorem decodePart_eq (cs : List Char) :
    decodePart cs = Utf8.decodeLenient (percentDecode (cs.map spaceForPlus)) := rfl

theorem map_spaceForPlus_of_escapes (h : ∀ c ∈ cs, c ∈ escapes) : cs.map spaceForPlus = cs := by
  have hkeeps : escapes.all (fun c => spaceForPlus c == c) := rfl
  rw [List.map_congr_left fun c hc => beq_iff_eq.mp (List.all_eq_true.mp hkeeps c (h c hc))]
  exact List.map_id' cs

/-- What is written for a character reads as its bytes. -/
theorem percentDecode_encodeOne (c : Char) (rest : List Char) :
    percentDecode ((encodeOne c).map spaceForPlus ++ rest) =
      Utf8.encodeChar c ++ percentDecode rest := by
  rw [encodeOne]
  split
  · rename_i hspace
    subst hspace
    exact percentDecode_cons_of_ne (by decide) rest
  · split
    · rename_i hplain
      have hnotPlus : c ≠ '+' := fun heq => absurd (heq ▸ hplain) (by decide)
      have hnotPercent : c ≠ '%' := fun heq => absurd (heq ▸ hplain) (by decide)
      simp only [List.map_cons, List.map_nil, spaceForPlus, if_neg hnotPlus, List.cons_append,
        List.nil_append]
      exact percentDecode_cons_of_ne hnotPercent rest
    · rw [map_spaceForPlus_of_escapes, percentDecode_flatMap_percentByte]
      intro d hd
      obtain ⟨b, -, hd⟩ := List.mem_flatMap.mp hd
      exact mem_escapes_of_mem_percentByte hd

theorem percentDecode_encodePart (cs : List Char) :
    percentDecode ((encodePart cs).map spaceForPlus) = cs.flatMap Utf8.encodeChar := by
  induction cs with
  | nil => rfl
  | cons c cs ih =>
    rw [encodePart_eq, List.flatMap_cons, List.map_append, percentDecode_encodeOne, ← encodePart_eq,
      ih, List.flatMap_cons]

/-- A name or value reads back from what is written for it. -/
theorem decodePart_encodePart (cs : List Char) : decodePart (encodePart cs) = cs := by
  rw [decodePart_eq, percentDecode_encodePart, Utf8.decodeLenient_flatMap]

/-- The characters of a name or value as it is written. -/
theorem mem_encodePart (h : c ∈ encodePart cs) : c = '+' ∨ isPlainPart c ∨ c ∈ escapes := by
  rw [encodePart_eq] at h
  obtain ⟨d, -, hc⟩ := List.mem_flatMap.mp h
  rw [encodeOne] at hc
  split at hc
  · exact .inl (List.mem_singleton.mp hc)
  · split at hc
    · rename_i hplain
      exact .inr (.inl (List.mem_singleton.mp hc ▸ hplain))
    · obtain ⟨b, -, hc⟩ := List.mem_flatMap.mp hc
      exact .inr (.inr (mem_escapes_of_mem_percentByte hc))

/-- No separator of pairs is written for a character. -/
theorem notMem_encodePart {mark : Char} (hmark : mark = '&' ∨ mark = '=') (cs : List Char) :
    mark ∉ encodePart cs := by
  intro h
  have hwritten := mem_encodePart h
  obtain rfl | rfl := hmark <;> exact absurd hwritten (by decide)

/-! ## Pairs -/

theorem decodePair_encodePair (p : Pair) : decodePair (encodePair p) = p := by
  have hname := notMem_encodePart (.inr rfl) p.1
  rw [decodePair, encodePair, Text.takeWhile_bne_append hname, Text.dropWhile_bne_append hname,
    List.drop_one, List.tail_cons, decodePart_encodePart, decodePart_encodePart]

/-- The pairs of a query that is written for pairs are those pairs. -/
theorem pairsOf_queryOf (pairs : List Pair) : pairsOf (queryOf pairs) = pairs := by
  by_cases hnone : pairs = []
  · subst hnone
    rfl
  · have hapart : ∀ part ∈ pairs.map encodePair, '&' ∉ part := by
      intro part hpart
      obtain ⟨p, -, rfl⟩ := List.mem_map.mp hpart
      rw [encodePair, List.mem_append, List.mem_cons, not_or, not_or]
      exact ⟨notMem_encodePart (.inl rfl) _, by decide, notMem_encodePart (.inl rfl) _⟩
    have hsome : pairs.map encodePair ≠ [] := fun heq => hnone (List.map_eq_nil_iff.mp heq)
    have hfilled : (pairs.map encodePair).filter (!·.isEmpty) = pairs.map encodePair := by
      rw [List.filter_eq_self]
      intro part hpart
      obtain ⟨p, -, rfl⟩ := List.mem_map.mp hpart
      simp [encodePair]
    rw [pairsOf, queryOf, Text.splitOn_intercalate hapart hsome, hfilled, List.map_map]
    exact List.map_id'' (fun p => decodePair_encodePair p) pairs

/-- There is nothing to encode in a query that is written for pairs. -/
theorem free_queryOf (pairs : List Pair) : Free specialQuerySet (queryOf pairs) := by
  have hpart {cs : List Char} {c : Char} (h : c ∈ encodePart cs) : specialQuerySet c = false := by
    obtain rfl | hplain | hescape := mem_encodePart h
    · rfl
    · exact specialQuerySet_of_isPlainPart hplain
    · exact free_specialQuerySet_escapes c hescape
  intro c hc
  obtain rfl | ⟨written, hwritten, hc⟩ := Text.mem_intercalate hc
  · rfl
  · obtain ⟨p, -, rfl⟩ := List.mem_map.mp hwritten
    rw [encodePair, List.mem_append, List.mem_cons] at hc
    obtain h | rfl | h := hc
    · exact hpart h
    · rfl
    · exact hpart h

end Amqp.Url
