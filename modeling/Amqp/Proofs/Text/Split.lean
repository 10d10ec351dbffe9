import Amqp.Text.Split
import Mathlib.Data.List.TakeWhile

/-!
# Cutting and joining

Cutting a text at a separator and joining the parts with it are inverse to each other, as long as no
part holds the separator.
-/

namespace Amqp.Text

/-- The parts between separators, as the standard library finds them. -/
theorem splitOn_eq (separator : Char) (cs : List Char) :
    splitOn separator cs = cs.splitOn separator := by
  induction cs with
  | nil => rfl
  | cons c cs ih =>
    rw [List.splitOn_cons_eq_if_modifyHead, splitOn, ih]
    by_cases hc : c = separator
    · rw [if_pos hc, if_pos (beq_iff_eq.mpr hc)]
    · rw [if_neg hc, if_neg fun h => hc (beq_iff_eq.mp h)]
      cases h : cs.splitOn separator with
      | nil => exact absurd h (List.splitOn_ne_nil _ _)
      | cons part parts => rfl

/-- A part holds no separator. -/
theorem notMem_of_mem_splitOn {separator : Char} {cs part : List Char}
    (h : part ∈ splitOn separator cs) : separator ∉ part := by
  induction cs generalizing part with
  | nil =>
    rw [splitOn, List.mem_singleton] at h
    exact h ▸ List.not_mem_nil
  | cons c cs ih =>
    rw [splitOn] at h
    split at h
    · rcases List.mem_cons.mp h with rfl | h
      · exact List.not_mem_nil
      · exact ih h
    · rename_i hc
      split at h
      · rename_i first parts hsplit
        rw [hsplit] at ih
        rcases List.mem_cons.mp h with rfl | h
        · have hfirst := ih (List.mem_cons_self ..)
          exact fun hmem => (List.mem_cons.mp hmem).elim (fun hsame => hc hsame.symm) hfirst
        · exact ih (List.mem_cons_of_mem _ h)
      · rename_i hnone
        exact absurd hnone (splitOn_ne_nil separator cs)

/-- Joining the parts gives the text back. -/
theorem intercalate_splitOn (separator : Char) (cs : List Char) :
    [separator].intercalate (splitOn separator cs) = cs := by
  rw [splitOn_eq]
  exact List.intercalate_splitOn separator

/-- Cutting gives back parts that were joined. -/
theorem splitOn_intercalate {separator : Char} {parts : List (List Char)}
    (hapart : ∀ part ∈ parts, separator ∉ part) (hsome : parts ≠ []) :
    splitOn separator ([separator].intercalate parts) = parts := by
  rw [splitOn_eq]
  exact List.splitOn_intercalate separator hapart hsome

/-- What is joined consists of the parts and the separator. -/
theorem mem_intercalate {separator c : Char} {parts : List (List Char)}
    (h : c ∈ [separator].intercalate parts) : c = separator ∨ ∃ part ∈ parts, c ∈ part := by
  induction parts with
  | nil => cases h
  | cons part parts ih =>
    cases parts with
    | nil =>
      rw [List.intercalate_singleton] at h
      exact .inr ⟨part, List.mem_cons_self, h⟩
    | cons next parts =>
      rw [List.intercalate_cons_cons, List.append_assoc, List.mem_append, List.mem_append,
        List.mem_singleton] at h
      obtain h | h | h := h
      · exact .inr ⟨part, List.mem_cons_self, h⟩
      · exact .inl h
      · obtain heq | ⟨other, hother, h⟩ := ih h
        · exact .inl heq
        · exact .inr ⟨other, List.mem_cons_of_mem _ hother, h⟩

/-- All characters of the parts are in what is joined. -/
theorem mem_intercalate_of_mem {separator c : Char} {parts : List (List Char)} {part : List Char}
    (hpart : part ∈ parts) (hc : c ∈ part) : c ∈ [separator].intercalate parts := by
  induction parts with
  | nil => cases hpart
  | cons first parts ih =>
    cases parts with
    | nil =>
      rw [List.mem_singleton] at hpart
      rwa [List.intercalate_singleton, ← hpart]
    | cons next parts =>
      rw [List.intercalate_cons_cons, List.append_assoc, List.mem_append, List.mem_append]
      obtain rfl | hlater := List.mem_cons.mp hpart
      · exact .inl hc
      · exact .inr (.inr (ih hlater))

/-- A part holds only characters of the text. -/
theorem mem_of_mem_splitOn {separator c : Char} {cs part : List Char}
    (hpart : part ∈ splitOn separator cs) (hc : c ∈ part) : c ∈ cs := by
  rw [← intercalate_splitOn separator cs]
  exact mem_intercalate_of_mem hpart hc

variable {mark : Char} {before after : List Char}

theorem bne_of_notMem (h : mark ∉ before) : ∀ c ∈ before, (c != mark) = true :=
  fun _ hc => bne_iff_ne.mpr fun heq => h (heq ▸ hc)

theorem takeWhile_bne_of_notMem (h : mark ∉ before) : before.takeWhile (· != mark) = before :=
  List.takeWhile_eq_self_iff.mpr (bne_of_notMem h)

theorem dropWhile_bne_of_notMem (h : mark ∉ before) : before.dropWhile (· != mark) = [] :=
  List.dropWhile_eq_nil_iff.mpr (bne_of_notMem h)

/-- The first mark ends what stands before it. -/
theorem takeWhile_bne_append (h : mark ∉ before) :
    (before ++ mark :: after).takeWhile (· != mark) = before := by
  rw [List.takeWhile_append_of_pos (bne_of_notMem h), List.takeWhile_cons_of_neg (by simp),
    List.append_nil]

theorem dropWhile_bne_append (h : mark ∉ before) :
    (before ++ mark :: after).dropWhile (· != mark) = mark :: after := by
  rw [List.dropWhile_append_of_pos (bne_of_notMem h), List.dropWhile_cons_of_neg (by simp)]

end Amqp.Text
