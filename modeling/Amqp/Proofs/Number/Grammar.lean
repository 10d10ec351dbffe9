import Amqp.Number.Literal
import Amqp.Proofs.Number.Decimal
import Amqp.Proofs.Text.Blank
import Mathlib.Tactic.IntervalCases

/-!
# The numbers that free texts stand for

Which texts stand for a number, said by a grammar: between blanks there is nothing, an infinity with
a sign or without, a decimal literal, or a mark for a base and digits of that base. The reader gives
exactly the number of such a text, and no number for all others.
-/

namespace Amqp.Number

variable {base n d : Nat} {c mark : Char} {cs : List Char} {negative : Bool} {q : ℚ} {x y : Number}
  {s : String}

/-! ## Naturals in a base -/

/-- A digit of a base and its value; letters may be small or capital. -/
def Digit (base : Nat) (c : Char) (d : Nat) : Prop :=
  d < base ∧
    ("0123456789abcdef".toList[d]? = some c ∨ "0123456789ABCDEF".toList[d]? = some c)

/-- Digits of a base and the natural that they denote, the last one counting one. -/
inductive Based (base : Nat) : List Char → Nat → Prop
  | digit {c : Char} {d : Nat} : Digit base c d → Based base [c] d
  | more {cs : List Char} {n : Nat} {c : Char} {d : Nat} :
      Based base cs n → Digit base c d → Based base (cs ++ [c]) (base * n + d)

theorem digitValue?_eq_some_iff : digitValue? c = some d ↔
    "0123456789abcdef".toList[d]? = some c ∨ "0123456789ABCDEF".toList[d]? = some c := by
  have hcode : c = Char.ofNat c.toNat := (Char.ofNat_toNat c).symm
  constructor
  · intro h
    rw [digitValue?] at h
    split at h
    · rename_i hdigit
      obtain ⟨hlow, hhigh⟩ := Text.isDigit_iff.mp hdigit
      obtain rfl := Option.some_inj.mp h
      rw [hcode]
      interval_cases c.toNat <;> decide
    · split at h
      · rename_i hsmall
        have hlow : 97 ≤ c.toNat := Char.le_def.mp hsmall.1
        have hhigh : c.toNat ≤ 102 := Char.le_def.mp hsmall.2
        obtain rfl := Option.some_inj.mp h
        rw [hcode]
        interval_cases c.toNat <;> decide
      · obtain ⟨hcapital, h⟩ := Option.ite_none_right_eq_some.mp h
        have hlow : 65 ≤ c.toNat := Char.le_def.mp hcapital.1
        have hhigh : c.toNat ≤ 70 := Char.le_def.mp hcapital.2
        obtain rfl := Option.some_inj.mp h
        rw [hcode]
        interval_cases c.toNat <;> decide
  · rintro (h | h) <;>
    · obtain ⟨hbound, rfl⟩ := List.getElem?_eq_some_iff.mp h
      have hbound : d < 16 := hbound
      interval_cases d <;> rfl

/-- One more digit. -/
theorem readBase?_concat (base : Nat) (cs : List Char) (c : Char) :
    readBase? base (cs ++ [c]) = (if cs = [] then some 0 else readBase? base cs).bind fun n =>
      (digitValue? c).bind fun d => if d < base then some (base * n + d) else none := by
  cases cs with
  | nil => cases h : digitValue? c <;> simp [readBase?, h]
  | cons b cs =>
    simp only [if_neg (List.cons_ne_nil b cs), List.cons_append, readBase?]
    rw [← List.cons_append, List.foldl_concat]
    cases List.foldl _ (some 0) (b :: cs) <;> cases digitValue? c <;> rfl

theorem Based.ne_nil (h : Based base cs n) : cs ≠ [] := by
  cases h <;> simp

theorem based_of_readBase? (h : readBase? base cs = some n) : Based base cs n := by
  induction cs using List.reverseRecOn generalizing n with
  | nil => simp [readBase?] at h
  | append_singleton cs c ih =>
    rw [readBase?_concat] at h
    obtain ⟨m, hfront, h⟩ := Option.bind_eq_some_iff.mp h
    obtain ⟨d, hlast, h⟩ := Option.bind_eq_some_iff.mp h
    obtain ⟨hsmall, h⟩ := Option.ite_none_right_eq_some.mp h
    obtain rfl := Option.some_inj.mp h
    have hdigit : Digit base c d := ⟨hsmall, digitValue?_eq_some_iff.mp hlast⟩
    split at hfront
    · rename_i hempty
      obtain rfl := Option.some_inj.mp hfront
      rw [hempty, List.nil_append, Nat.mul_zero, Nat.zero_add]
      exact .digit hdigit
    · exact .more (ih hfront) hdigit

/-- The reader of a base accepts exactly its digits. -/
theorem readBase?_eq_some_iff : readBase? base cs = some n ↔ Based base cs n := by
  refine ⟨based_of_readBase?, fun h => ?_⟩
  induction h with
  | @digit c d hdigit =>
    have hone := readBase?_concat base [] c
    rw [if_pos rfl, Option.bind_some, digitValue?_eq_some_iff.mpr hdigit.2, Option.bind_some,
      if_pos hdigit.1, Nat.mul_zero, Nat.zero_add] at hone
    exact hone
  | more hfront hdigit ih =>
    rw [readBase?_concat, if_neg hfront.ne_nil, ih, Option.bind_some,
      digitValue?_eq_some_iff.mpr hdigit.2, Option.bind_some, if_pos hdigit.1]

/-! ## Literals -/

/-- The marks of the bases. -/
def bases : List (Char × Nat) := [('x', 16), ('X', 16), ('o', 8), ('O', 8), ('b', 2), ('B', 2)]

/-- A text that stands for a number, without the blanks around it. -/
inductive Literal : List Char → Number → Prop
  | empty {x : Number} : Rounds false 0 x → Literal [] x
  | infinity : Literal "Infinity".toList (infinite false)
  | plusInfinity : Literal ('+' :: "Infinity".toList) (infinite false)
  | minusInfinity : Literal ('-' :: "Infinity".toList) (infinite true)
  | decimal {cs : List Char} {d : Decimal} {x : Number} :
      Decimal.Spells cs d → Rounds d.negative d.magnitude x → Literal cs x
  | based {mark : Char} {base : Nat} {cs : List Char} {n : Nat} {x : Number} :
      (mark, base) ∈ bases → Based base cs n → Rounds false n x → Literal ('0' :: mark :: cs) x

theorem rounds_ofNat (n : Nat) : Rounds false n (ofNat n) := by
  have hrounds := rounds_ofRatio false n one_pos
  rwa [Nat.cast_one, div_one] at hrounds

/-- What a magnitude is rounded to is a number. -/
theorem Rounds.ne_nan (h : Rounds negative q x) : x ≠ nan := by
  obtain ⟨m, e, -, rfl⟩ := h
  rw [bounded]
  split <;> simp

/-- Behind a mark stand digits of its base. -/
theorem ofTrimmed_marked (h : (mark, base) ∈ bases) (cs : List Char) :
    ofTrimmed ('0' :: mark :: cs) = ((readBase? base cs).map ofNat).getD nan := by
  simp only [bases, List.mem_cons, Prod.mk.injEq, List.not_mem_nil, or_false] at h
  obtain ⟨rfl, rfl⟩ | ⟨rfl, rfl⟩ | ⟨rfl, rfl⟩ | ⟨rfl, rfl⟩ | ⟨rfl, rfl⟩ | ⟨rfl, rfl⟩ := h <;> rfl

/-- A text without a mark that is no infinity has to be a decimal. -/
theorem ofTrimmed_unmarked (hsome : cs ≠ [])
    (hunmarked : ∀ mark base rest, (mark, base) ∈ bases → cs ≠ '0' :: mark :: rest)
    (hfinite : (Decimal.takeSign cs).2 ≠ "Infinity".toList) :
    ofTrimmed cs = ((Decimal.read? cs).map Decimal.toNumber).getD nan := by
  rw [ofTrimmed.eq_def]
  split
  · exact absurd rfl hsome
  · rename_i b rest
    have hother {mark : Char} (h : mark ∈ bases.map Prod.fst) : b ≠ mark := by
      obtain ⟨⟨_, base⟩, hknown, rfl⟩ := List.mem_map.mp h
      exact fun heq => hunmarked _ base rest hknown (heq ▸ rfl)
    have hx : ¬(b = 'x' ∨ b = 'X') := not_or.mpr ⟨hother (by decide), hother (by decide)⟩
    have ho : ¬(b = 'o' ∨ b = 'O') := not_or.mpr ⟨hother (by decide), hother (by decide)⟩
    have hb : ¬(b = 'b' ∨ b = 'B') := not_or.mpr ⟨hother (by decide), hother (by decide)⟩
    rw [if_neg hx, if_neg ho, if_neg hb]
  · generalize Decimal.takeSign cs = front at hfinite ⊢
    exact if_neg hfinite

theorem ofTrimmed_of_spells {d : Decimal} (h : Decimal.Spells cs d) :
    ofTrimmed cs = d.toNumber := by
  have hno {c : Char} (hstrange : ¬Decimal.IsWritten c) : c ∉ cs :=
    fun hc => hstrange (h.written c hc)
  rw [ofTrimmed_unmarked h.ne_nil, Decimal.read?_eq_some_iff.mpr h, Option.map_some,
    Option.getD_some]
  · rintro mark base rest hm rfl
    have hstrange : ∀ m ∈ bases, ¬Decimal.IsWritten m.1 := by decide
    exact hno (hstrange _ hm) (by simp)
  · intro hinfinity
    have hfirst : 'I' ∈ (Decimal.takeSign cs).2 := hinfinity ▸ List.mem_cons_self
    exact hno (by decide) (Decimal.mem_of_mem_takeSign hfirst)

/-- The reader gives the number of a literal. -/
theorem Literal.ofTrimmed (h : Literal cs x) : Number.ofTrimmed cs = x := by
  cases h with
  | empty hrounds =>
    have hzero := rounds_ofNat 0
    rw [Nat.cast_zero] at hzero
    exact hzero.unique hrounds
  | infinity | plusInfinity | minusInfinity => rfl
  | decimal hspells hrounds =>
    rw [ofTrimmed_of_spells hspells]
    exact (Decimal.rounds_toNumber _).unique hrounds
  | based hm hdigits hrounds =>
    rw [ofTrimmed_marked hm, readBase?_eq_some_iff.mpr hdigits, Option.map_some, Option.getD_some]
    exact (rounds_ofNat _).unique hrounds

theorem Literal.ne_nan (h : Literal cs x) : x ≠ nan := by
  cases h with
  | empty hrounds | decimal _ hrounds | based _ _ hrounds => exact hrounds.ne_nan
  | infinity | plusInfinity | minusInfinity => simp

/-- What the reader gives a number is a literal. -/
theorem literal_ofTrimmed (h : Number.ofTrimmed cs ≠ nan) : Literal cs (Number.ofTrimmed cs) := by
  have hfound {α : Type} {o : Option α} {f : α → Number} (h : (o.map f).getD nan ≠ nan) :
      ∃ a, o = some a := Option.ne_none_iff_exists'.mp fun hnone => h (hnone ▸ rfl)
  by_cases hempty : cs = []
  · subst hempty
    have hzero := rounds_ofNat 0
    rw [Nat.cast_zero] at hzero
    exact .empty hzero
  by_cases hmarked : ∃ mark base rest, (mark, base) ∈ bases ∧ cs = '0' :: mark :: rest
  · obtain ⟨mark, base, rest, hm, rfl⟩ := hmarked
    rw [ofTrimmed_marked hm] at h ⊢
    obtain ⟨n, hread⟩ := hfound h
    rw [hread]
    exact .based hm (readBase?_eq_some_iff.mp hread) (rounds_ofNat n)
  by_cases hinfinity : (Decimal.takeSign cs).2 = "Infinity".toList
  · obtain ⟨rest, rfl, hsign⟩ | ⟨rest, rfl, hsign⟩ | hsign := Decimal.takeSign_cases cs <;>
      rw [hsign] at hinfinity <;> subst hinfinity
    · exact .minusInfinity
    · exact .plusInfinity
    · exact .infinity
  rw [ofTrimmed_unmarked hempty
    (fun mark base rest hm heq => hmarked ⟨mark, base, rest, hm, heq⟩) hinfinity] at h ⊢
  obtain ⟨d, hread⟩ := hfound h
  rw [hread]
  exact .decimal (Decimal.read?_eq_some_iff.mp hread) (Decimal.rounds_toNumber d)

/-! ## Literals between blanks -/

/-- A text and the number it stands for. -/
def Reads (s : String) (x : Number) : Prop :=
  ∃ before cs after, (∀ c ∈ before, Text.isBlank c) ∧ (∀ c ∈ after, Text.isBlank c) ∧
    s.toList = before ++ cs ++ after ∧ Literal cs x

theorem Digit.not_isBlank (h : Digit base c d) : ¬Text.isBlank c := by
  obtain hsmall | hcapital := h.2
  · exact Text.not_isBlank_of_all rfl c (List.mem_of_getElem? hsmall)
  · exact Text.not_isBlank_of_all rfl c (List.mem_of_getElem? hcapital)

theorem Based.not_isBlank (h : Based base cs n) : ∀ c ∈ cs, ¬Text.isBlank c := by
  induction h with
  | digit hlast => exact List.forall_mem_singleton.mpr hlast.not_isBlank
  | more _ hlast ih =>
    exact List.forall_mem_append.mpr ⟨ih, List.forall_mem_singleton.mpr hlast.not_isBlank⟩

/-- There are no blanks in a literal. -/
theorem Literal.not_isBlank (h : Literal cs x) : ∀ c ∈ cs, ¬Text.isBlank c := by
  cases h with
  | empty => simp
  | infinity | plusInfinity | minusInfinity => exact Text.not_isBlank_of_all rfl
  | decimal hspells =>
    intro c hc
    obtain hdigit | hother := hspells.written c hc
    · exact Text.not_isBlank_of_isDigit hdigit
    · exact Text.not_isBlank_of_all rfl c hother
  | based hm hdigits =>
    have hmarks : ∀ c ∈ '0' :: bases.map Prod.fst, ¬Text.isBlank c := Text.not_isBlank_of_all rfl
    have hzero := hmarks _ List.mem_cons_self
    have hmark := hmarks _ (List.mem_cons_of_mem _ (List.mem_map_of_mem hm))
    exact List.forall_mem_cons.mpr ⟨hzero, List.forall_mem_cons.mpr ⟨hmark, hdigits.not_isBlank⟩⟩

/-- The reader of texts gives exactly the numbers that they stand for. -/
theorem reads_iff : Reads s x ↔ ofText s = x ∧ x ≠ nan := by
  constructor
  · rintro ⟨before, cs, after, hbefore, hafter, hsplit, hliteral⟩
    rw [ofText, hsplit, Text.trimChars_append hbefore hliteral.not_isBlank hafter]
    exact ⟨hliteral.ofTrimmed, hliteral.ne_nan⟩
  · rintro ⟨rfl, hnumber⟩
    obtain ⟨before, after, hbefore, hafter, hsplit⟩ := Text.eq_append_trimChars s.toList
    exact ⟨before, _, after, hbefore, hafter, hsplit, literal_ofTrimmed hnumber⟩

end Amqp.Number
