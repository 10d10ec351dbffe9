import Amqp.Delivery.TagMap

/-!
# What a settlement takes out of a ledger

Where all tags are assigned, every two of them can be compared. A settlement then takes out exactly
the tags that it covers, its own and with `multiple` all smaller ones, and nothing stops it.
-/

namespace Amqp

/-- Whether a settlement of the tag `n`, with `multiple` or without, covers the tag `k`. -/
def Covers (n : Nat) (multiple : Bool) (k : Nat) : Prop := k = n ∨ multiple = true ∧ k < n

instance (n : Nat) (multiple : Bool) (k : Nat) : Decidable (Covers n multiple k) :=
  inferInstanceAs (Decidable (_ ∨ _))

namespace Tag

/-- Whether a settlement of the tag `n` covers a tag. -/
def coveredBy (n : Nat) (multiple : Bool) : Tag → Bool
  | assigned k => decide (Covers n multiple k)
  | irregular _ => false

/-- Whether a tag is assigned and smaller than `n`. -/
def below (n : Nat) : Tag → Bool
  | assigned k => decide (k < n)
  | irregular _ => false

/-- A number can always be compared with an assigned tag. -/
theorem exists_before {t : Tag} {x : Number} (h : t.toValue = .number x) (n : Nat) :
    ∃ b, t.before (.assigned n) = .ok b := by
  cases t with
  | assigned k => exact ⟨_, rfl⟩
  | irregular v =>
    obtain rfl : v = .number x := h
    exact ⟨_, rfl⟩

@[simp] theorem same_assigned (k n : Nat) : (assigned k).same (assigned n) = (k == n) := rfl

end Tag

namespace TagMap

variable {α : Type} {ledger : TagMap α} {n : Nat} {multiple : Bool}

/-- All tags of a ledger are assigned ones. -/
def Assigned (ledger : TagMap α) : Prop := ∀ e ∈ ledger, ∃ k, e.1 = .assigned k

/-- A part of such a ledger is one too. -/
theorem Assigned.filter (h : ledger.Assigned) (p : Tag × α → Bool) :
    Assigned (ledger.filter p) :=
  fun e he => h e (List.mem_filter.mp he).1

/-- A sweep parts a ledger into the smaller tags and the others. -/
theorem sweep_eq (h : ledger.Assigned) :
    ledger.sweep (.assigned n) =
      ⟨ledger.filter (!·.1.below n), ledger.filter (·.1.below n), none⟩ := by
  induction ledger with
  | nil => rfl
  | cons e ledger ih =>
    obtain ⟨t, a⟩ := e
    obtain ⟨k, rfl⟩ := h _ (List.mem_cons_self ..)
    have hrest : sweep (.assigned n) ledger = _ := ih fun e he => h e (List.mem_cons_of_mem _ he)
    by_cases hk : k < n
    · simp [sweep, Tag.before, Tag.below, hk, hrest]
    · simp [sweep, Tag.before, Tag.below, hk, hrest]

/-- A settlement keeps exactly the entries that it does not cover. -/
theorem kept_settle (h : ledger.Assigned) :
    (ledger.settle (.assigned n) multiple).kept = ledger.filter (!·.1.coveredBy n multiple) := by
  have hkept : (ledger.settle (.assigned n) multiple).kept =
      (ledger.remove (.assigned n)).filter fun e => !(multiple && e.1.below n) := by
    cases multiple with
    | false => exact (List.filter_eq_self.mpr fun _ _ => rfl).symm
    | true =>
      rw [settle, if_pos rfl, remove, sweep_eq (h.filter _)]
      rfl
  rw [hkept, remove, List.filter_filter]
  apply List.filter_congr
  intro e he
  obtain ⟨k, hk⟩ := h e he
  by_cases hkn : k = n <;> cases multiple <;>
    simp [hk, Tag.coveredBy, Tag.below, Covers, hkn]

/-- Besides its own tag a settlement covers the smaller ones, if it is `multiple`. -/
theorem covered_settle (h : ledger.Assigned) :
    (ledger.settle (.assigned n) multiple).covered =
      ledger.filter (multiple && ·.1.below n) := by
  cases multiple with
  | false => simp [settle]
  | true =>
    rw [settle, if_pos rfl, remove, sweep_eq (h.filter _)]
    simp only [List.filter_filter]
    apply List.filter_congr
    intro e he
    obtain ⟨k, hk⟩ := h e he
    by_cases hkn : k = n <;> simp [hk, Tag.below, hkn]

/-- Nothing stops a settlement among assigned tags. -/
theorem fault_settle (h : ledger.Assigned) :
    (ledger.settle (.assigned n) multiple).fault = none := by
  cases multiple with
  | false => rfl
  | true => rw [settle, if_pos rfl, remove, sweep_eq (h.filter _)]

/-- Nothing stops a settlement either where every tag can be compared. -/
theorem fault_settle_of_before (h : ∀ e ∈ ledger, ∃ b, e.1.before (.assigned n) = .ok b) :
    (ledger.settle (.assigned n) multiple).fault = none := by
  have hsweep (rest : TagMap α) (h : ∀ e ∈ rest, ∃ b, e.1.before (.assigned n) = .ok b) :
      (rest.sweep (.assigned n)).fault = none := by
    induction rest with
    | nil => rfl
    | cons e rest ih =>
      obtain ⟨b, hb⟩ := h e (List.mem_cons_self ..)
      have hrest := ih fun e he => h e (List.mem_cons_of_mem _ he)
      cases b <;> simp only [sweep, hb, hrest]
  cases multiple with
  | false => rfl
  | true =>
    rw [settle, if_pos rfl]
    exact hsweep _ fun e he => h e (List.mem_filter.mp he).1

/-- A settlement keeps only what has been there. -/
theorem mem_of_mem_kept {t : Tag} {e : Tag × α} (he : e ∈ (ledger.settle t multiple).kept) :
    e ∈ ledger := by
  have hsweep (rest : TagMap α) (he : e ∈ (rest.sweep t).kept) : e ∈ rest := by
    induction rest with
    | nil => exact he
    | cons e' rest ih =>
      simp only [sweep] at he
      split at he
      · exact he
      · exact List.mem_cons_of_mem _ (ih he)
      · rcases List.mem_cons.mp he with rfl | he
        · exact List.mem_cons_self ..
        · exact List.mem_cons_of_mem _ (ih he)
  cases multiple with
  | false => exact (List.mem_filter.mp he).1
  | true => exact (List.mem_filter.mp (hsweep _ he)).1

/-- An entry under an assigned tag is kept exactly if its tag is not covered. -/
theorem mem_kept_settle (h : ledger.Assigned) {k : Nat} {a : α} :
    (.assigned k, a) ∈ (ledger.settle (.assigned n) multiple).kept ↔
      (.assigned k, a) ∈ ledger ∧ ¬Covers n multiple k := by
  simp [kept_settle h, Tag.coveredBy]

/-- An entry under an assigned tag is covered besides the own one exactly if its tag is smaller. -/
theorem mem_covered_settle (h : ledger.Assigned) {k : Nat} {a : α} :
    (.assigned k, a) ∈ (ledger.settle (.assigned n) multiple).covered ↔
      (.assigned k, a) ∈ ledger ∧ multiple = true ∧ k < n := by
  simp [covered_settle h, Tag.below]

/-- A ledger takes in an entry under a new tag at its end. -/
theorem track_of_fresh {t : Tag} {a : α} (h : ∀ e ∈ ledger, e.1.same t = false) :
    ledger.track t a = ledger ++ [(t, a)] := by
  induction ledger with
  | nil => rfl
  | cons e ledger ih =>
    have hrest := ih fun e he => h e (List.mem_cons_of_mem _ he)
    simp [track, h e (List.mem_cons_self ..), hrest]

/-- The tags on a ledger are those of before and the new one. -/
theorem mem_track {t t' : Tag} {a a' : α} (h : (t', a') ∈ ledger.track t a) :
    t' = t ∨ ∃ a', (t', a') ∈ ledger := by
  induction ledger with
  | nil => exact .inl (Prod.mk.inj (List.mem_singleton.mp h)).1
  | cons e ledger ih =>
    simp only [track] at h
    split at h
    · rcases List.mem_cons.mp h with h | h
      · exact .inr ⟨e.2, by rw [(Prod.mk.inj h).1]; exact List.mem_cons_self ..⟩
      · exact .inr ⟨a', List.mem_cons_of_mem _ h⟩
    · rcases List.mem_cons.mp h with h | h
      · exact .inr ⟨a', h ▸ List.mem_cons_self ..⟩
      · rcases ih h with h | ⟨b, hb⟩
        · exact .inl h
        · exact .inr ⟨b, List.mem_cons_of_mem _ hb⟩

/-- An entry that a ledger takes in is on it, under its tag or one that is the same key. -/
theorem exists_mem_track (ledger : TagMap α) (t : Tag) (a : α) :
    ∃ t', (t' = t ∨ t'.same t = true) ∧ (t', a) ∈ ledger.track t a := by
  induction ledger with
  | nil => exact ⟨t, .inl rfl, List.mem_singleton_self _⟩
  | cons e ledger ih =>
    simp only [track]
    split
    · rename_i hsame
      exact ⟨e.1, .inr hsame, List.mem_cons_self ..⟩
    · obtain ⟨t', ht', hmem⟩ := ih
      exact ⟨t', ht', List.mem_cons_of_mem _ hmem⟩

/-- An entry stays on a ledger that takes in one under another tag. -/
theorem mem_track_of_mem {t : Tag} {a : α} {e : Tag × α} (he : e ∈ ledger)
    (hne : e.1.same t = false) : e ∈ ledger.track t a := by
  induction ledger with
  | nil => exact nomatch he
  | cons e' ledger ih =>
    simp only [track]
    split
    · rename_i hsame
      rcases List.mem_cons.mp he with rfl | he
      · exact nomatch hsame.symm.trans hne
      · exact List.mem_cons_of_mem _ he
    · rcases List.mem_cons.mp he with rfl | he
      · exact List.mem_cons_self ..
      · exact List.mem_cons_of_mem _ (ih he)

/-- Changing the places of all covered entries, any number of times, changes each of them once. -/
theorem getElem?_foldl_modify {β : Type} {f : β → β} (hf : ∀ b, f (f b) = f b)
    (covered : TagMap Nat) (xs : List β) (i : Nat) :
    (covered.foldl (fun xs e => xs.modify e.2 f) xs)[i]? =
      if i ∈ covered.map (·.2) then xs[i]?.map f else xs[i]? := by
  induction covered generalizing xs with
  | nil => simp
  | cons e covered ih =>
    rw [List.foldl_cons, ih, List.getElem?_modify, List.map_cons]
    by_cases he : i = e.2
    · by_cases hcovered : i ∈ covered.map (·.2) <;>
        simp [← he, hcovered, hf, Function.comp_def]
    · have hmem : i ∈ e.2 :: covered.map (·.2) ↔ i ∈ covered.map (·.2) := by simp [he]
      simp only [hmem, Ne.symm he, ite_false, id_map']

end TagMap

end Amqp
