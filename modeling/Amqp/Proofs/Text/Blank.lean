import Amqp.Proofs.Text.Ascii
import Amqp.Text.Blank
import Mathlib.Data.List.TakeWhile

/-!
# What trimming leaves

Trimming takes blanks off both ends and nothing else, so a run of characters without blanks is what
is left of every text that holds it between blanks.
-/

namespace Amqp.Text

variable {before cs after : List Char}

/-- There are no blanks between the space and the no-break space. -/
theorem not_isBlank_of_lt {c : Char} (hlow : 32 < c.toNat) (hhigh : c.toNat < 160) :
    ¬isBlank c := by
  have hval : c.val.toNat = c.toNat := rfl
  simp only [isBlank, Bool.or_eq_true, Bool.and_eq_true, decide_eq_true_eq, beq_iff_eq,
    UInt32.le_iff_toNat_le, hval, ← Char.toNat_inj, Char.reduceToNat, UInt32.reduceToNat]
  omega

theorem not_isBlank_of_isDigit {c : Char} (h : c.isDigit) : ¬isBlank c := by
  obtain ⟨hlow, hhigh⟩ := isDigit_iff.mp h
  exact not_isBlank_of_lt (by omega) (by omega)

/-- A text without blanks, said so that it can be computed. -/
theorem not_isBlank_of_all (h : (cs.all fun c => !isBlank c) = true) : ∀ c ∈ cs, ¬isBlank c := by
  simpa using h

theorem dropWhile_isBlank_of_forall (h : ∀ c ∈ cs, ¬isBlank c) : cs.dropWhile isBlank = cs := by
  cases cs with
  | nil => rfl
  | cons c rest => exact List.dropWhile_cons_of_neg (h c List.mem_cons_self)

/-- A text is what trimming leaves of it, between blanks. -/
theorem eq_append_trimChars (cs : List Char) : ∃ before after,
    (∀ c ∈ before, isBlank c) ∧ (∀ c ∈ after, isBlank c) ∧
      cs = before ++ trimChars cs ++ after := by
  refine ⟨cs.takeWhile isBlank, ((cs.dropWhile isBlank).reverse.takeWhile isBlank).reverse,
    fun c hc => List.mem_takeWhile_imp hc, fun c hc => ?_, ?_⟩
  · exact List.mem_takeWhile_imp (List.mem_reverse.mp hc)
  · rw [trimChars, List.append_assoc, ← List.reverse_append, List.takeWhile_append_dropWhile,
      List.reverse_reverse, List.takeWhile_append_dropWhile]

/-- Characters without blanks, between blanks, are what trimming leaves. -/
theorem trimChars_append (hbefore : ∀ c ∈ before, isBlank c) (h : ∀ c ∈ cs, ¬isBlank c)
    (hafter : ∀ c ∈ after, isBlank c) : trimChars (before ++ cs ++ after) = cs := by
  have hfront : (before ++ cs ++ after).dropWhile isBlank = (cs ++ after).dropWhile isBlank := by
    rw [List.append_assoc, List.dropWhile_append_of_pos hbefore]
  have hback : (cs ++ after).reverse.dropWhile isBlank = cs.reverse := by
    rw [List.reverse_append,
      List.dropWhile_append_of_pos fun c hc => hafter c (List.mem_reverse.mp hc)]
    exact dropWhile_isBlank_of_forall fun c hc => h c (List.mem_reverse.mp hc)
  cases cs with
  | nil =>
    rw [trimChars, hfront, List.nil_append, List.dropWhile_eq_nil_iff.mpr hafter]
    rfl
  | cons c rest =>
    have hfirst : ¬isBlank c := h c List.mem_cons_self
    rw [trimChars, hfront, List.cons_append, List.dropWhile_cons_of_neg hfirst, ← List.cons_append,
      hback, List.reverse_reverse]

/-- A text is blank if trimming leaves nothing. -/
theorem isBlankText_iff {s : String} : isBlankText s ↔ trim s = "" := by
  rw [isBlankText, List.all_eq_true]
  constructor
  · intro h
    have hnone := trimChars_append h (fun c hc => absurd hc List.not_mem_nil)
      (fun c hc => absurd hc (List.not_mem_nil (a := c)))
    rw [List.append_nil, List.append_nil] at hnone
    rw [trim, hnone]
  · intro h
    obtain ⟨before, after, hbefore, hafter, hsplit⟩ := eq_append_trimChars s.toList
    have hnone : trimChars s.toList = [] := String.ofList_eq_empty_iff.mp h
    rw [hsplit, hnone, List.append_nil]
    exact List.forall_mem_append.mpr ⟨hbefore, hafter⟩

end Amqp.Text
