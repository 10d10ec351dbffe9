import Amqp.Connection.Environment
import Amqp.Proofs.Number.Grammar
import Amqp.Proofs.Number.Order

/-!
# Exactly the valid environments are accepted

Which variables are valid is said by their texts alone: the address begins with one of two schemes,
and a number is left open or its text reads as an integer in range. Loading gives options if all
variables are valid, and then the numbers are the ones that are asked for. Otherwise it reports
every rule that is broken, in one fixed order, and these name exactly the variables that are not
valid.
-/

namespace Amqp

variable {env : Environment} {v : Variable} {i : VariableIssue} {n : Nat} {x : Number} {s : String}
  {o : ConnectionOptions}

/-- The number of a variable that is left open; the address has none. -/
def Variable.default? : Variable → Option Nat
  | uri => none
  | heartbeat => some 10
  | timeout => some 10000

/-- An address that begins with one of the two schemes. -/
def NamesBroker (uri : String) : Prop := ∃ rest, uri = "amqp://" ++ rest ∨ uri = "amqps://" ++ rest

namespace Environment

/-- The variable is missing or blank. -/
def Open (env : Environment) (v : Variable) : Prop := ∀ s, env.get? v = some s → Text.trim s = ""

/-- The variable is left open, or its text reads as an integer in range. -/
def Admits (env : Environment) (v : Variable) (inRange : Int → Prop) : Prop :=
  env.Open v ∨ ∃ s x, ∃ n : Int,
    env.get? v = some s ∧ Number.Reads s x ∧ x.value? = some (n : ℚ) ∧ inRange n

/-- What a variable has to be. -/
def Valid (env : Environment) : Variable → Prop
  | .uri => ∃ uri, env.get? .uri = some uri ∧ NamesBroker uri
  | .heartbeat => env.Admits .heartbeat (0 ≤ ·)
  | .timeout => env.Admits .timeout (0 < ·)

/-- The number that a variable asks for. -/
inductive Asks (env : Environment) (v : Variable) : Number → Prop
  | default {n : Nat} {x : Number} :
      v.default? = some n → env.Open v → Number.Rounds false n x → Asks env v x
  | given {s : String} {x : Number} :
      v.default?.isSome → env.get? v = some s → Text.trim s ≠ "" → Number.Reads s x → Asks env v x

/-- The rules that an environment breaks, each as the issue that names it. -/
inductive Breaks (env : Environment) : VariableIssue → Prop
  | missing : env.get? .uri = none → Breaks env ⟨.uri, .missing⟩
  | wrongScheme {uri : String} :
      env.get? .uri = some uri → ¬NamesBroker uri → Breaks env ⟨.uri, .wrongScheme⟩
  | notNumber {v : Variable} :
      v.default?.isSome → (∀ x, ¬env.Asks v x) → Breaks env ⟨v, .notNumber⟩
  | notInteger {v : Variable} {x : Number} :
      env.Asks v x → (∀ n : Int, x.value? ≠ some (n : ℚ)) → Breaks env ⟨v, .notInteger⟩
  | negative {x : Number} {a : WithBot (WithTop ℚ)} :
      env.Asks .heartbeat x → x.position? = some a → a < 0 → Breaks env ⟨.heartbeat, .negative⟩
  | notPositive {x : Number} {a : WithBot (WithTop ℚ)} :
      env.Asks .timeout x → x.position? = some a → a ≤ 0 → Breaks env ⟨.timeout, .notPositive⟩

/-- All issues that there are, in the order in which they are reported. -/
def allIssues : List VariableIssue :=
  [⟨.uri, .missing⟩, ⟨.uri, .wrongScheme⟩,
    ⟨.heartbeat, .notNumber⟩, ⟨.heartbeat, .notInteger⟩, ⟨.heartbeat, .negative⟩,
    ⟨.timeout, .notNumber⟩, ⟨.timeout, .notInteger⟩, ⟨.timeout, .notPositive⟩]

/-! ## Addresses and numbers -/

theorem hasBrokerScheme_iff {uri : String} : hasBrokerScheme uri ↔ NamesBroker uri := by
  have hbegins (scheme : String) :
      scheme.toList.isPrefixOf uri.toList ↔ ∃ rest, uri = scheme ++ rest := by
    rw [List.isPrefixOf_iff_prefix]
    constructor
    · rintro ⟨rest, hsplit⟩
      refine ⟨String.ofList rest, String.toList_injective ?_⟩
      rw [String.toList_append, String.toList_ofList, hsplit]
    · rintro ⟨rest, rfl⟩
      exact ⟨rest.toList, String.toList_append.symm⟩
  rw [hasBrokerScheme, Bool.or_eq_true, hbegins, hbegins, NamesBroker, exists_or]

theorem numberOr_of_open (h : env.Open v) (n : Nat) : numberOr n (env.get? v) = .ofNat n := by
  cases hget : env.get? v with
  | none => rfl
  | some s => exact if_pos (Text.isBlankText_iff.mpr (h s hget))

theorem numberOr_of_get? (hget : env.get? v = some s) (hsome : Text.trim s ≠ "") (n : Nat) :
    numberOr n (env.get? v) = .ofText s := by
  rw [hget]
  exact if_neg (mt Text.isBlankText_iff.mp hsome)

/-- A variable that is not left open has a text. -/
theorem exists_of_not_open (h : ¬env.Open v) : ∃ s, env.get? v = some s ∧ Text.trim s ≠ "" := by
  simpa only [Open, not_forall, exists_prop] using h

theorem Asks.isSome (h : env.Asks v x) : v.default?.isSome := by
  cases h with
  | default hdefault => exact hdefault ▸ rfl
  | given hnumeric => exact hnumeric

/-- The number of a variable is the one that it asks for, unless it is no number. -/
theorem asks_iff (hdefault : v.default? = some n) :
    env.Asks v x ↔ numberOr n (env.get? v) = x ∧ x ≠ .nan := by
  by_cases hleft : env.Open v
  · rw [numberOr_of_open hleft]
    constructor
    · rintro (⟨hsame, -, hrounds⟩ | ⟨-, hget, hsome, -⟩)
      · obtain rfl := Option.some_inj.mp (hdefault.symm.trans hsame)
        exact ⟨(Number.rounds_ofNat n).unique hrounds, hrounds.ne_nan⟩
      · exact absurd (hleft _ hget) hsome
    · rintro ⟨rfl, -⟩
      exact .default hdefault hleft (Number.rounds_ofNat n)
  · obtain ⟨s, hget, hsome⟩ := exists_of_not_open hleft
    rw [numberOr_of_get? hget hsome, ← Number.reads_iff]
    constructor
    · rintro (⟨-, hleft', -⟩ | ⟨-, hget', -, hreads⟩)
      · exact absurd hleft' hleft
      · obtain rfl := Option.some_inj.mp (hget.symm.trans hget')
        exact hreads
    · exact .given (hdefault ▸ rfl) hget hsome

theorem not_asks_iff (hdefault : v.default? = some n) :
    (∀ x, ¬env.Asks v x) ↔ numberOr n (env.get? v) = .nan := by
  simp only [asks_iff hdefault, not_and, not_not, forall_eq']

/-- A variable is in range if its number is, as long as the default is. -/
theorem admits_iff {inRange : Int → Prop} (hsmall : n < 2 ^ 53) (hpasses : inRange n) :
    env.Admits v inRange ↔
      ∃ k : Int, (numberOr n (env.get? v)).value? = some (k : ℚ) ∧ inRange k := by
  by_cases hleft : env.Open v
  · rw [numberOr_of_open hleft]
    exact iff_of_true (.inl hleft) ⟨n, Number.value?_ofRatio_of_lt hsmall, hpasses⟩
  · obtain ⟨s, hget, hsome⟩ := exists_of_not_open hleft
    rw [numberOr_of_get? hget hsome]
    constructor
    · rintro (hopen' | ⟨s', x, k, hget', hreads, hvalue, hrange⟩)
      · exact absurd hopen' hleft
      · obtain rfl := Option.some_inj.mp (hget.symm.trans hget')
        rw [(Number.reads_iff.mp hreads).1]
        exact ⟨k, hvalue, hrange⟩
    · rintro ⟨k, hvalue, hrange⟩
      have hnumber : Number.ofText s ≠ .nan := fun hnan => by simp [hnan, Number.value?] at hvalue
      exact .inr ⟨s, _, k, hget, Number.reads_iff.mpr ⟨rfl, hnumber⟩, hvalue, hrange⟩

/-! ## The issues of one variable -/

/-- The issues of a variable. -/
def issuesOf (env : Environment) : Variable → List VariableIssue
  | .uri => uriIssues (env.get? .uri)
  | .heartbeat => numberIssues .heartbeat .negative (fun n => !n.lt (.ofNat 0)) env.heartbeat
  | .timeout => numberIssues .timeout .notPositive (Number.lt (.ofNat 0)) env.timeout

theorem issues_eq (env : Environment) :
    env.issues = env.issuesOf .uri ++ env.issuesOf .heartbeat ++ env.issuesOf .timeout := rfl

theorem numberIssues_sublist (v : Variable) (range : VariableProblem) (inRange : Number → Bool)
    (x : Number) : (numberIssues v range inRange x).Sublist
      [⟨v, .notNumber⟩, ⟨v, .notInteger⟩, ⟨v, range⟩] := by
  rw [numberIssues]
  split
  · simp
  · split <;> split <;> simp

/-- The issues are found in the order of the table. -/
theorem issuesOf_sublist (env : Environment) (v : Variable) :
    (env.issuesOf v).Sublist (allIssues.filter (·.subject = v)) := by
  cases v with
  | uri =>
    rw [issuesOf, uriIssues.eq_def]
    split
    · decide
    · split <;> decide
  | heartbeat | timeout =>
    rw [issuesOf]
    exact numberIssues_sublist ..

theorem issues_sublist (env : Environment) : env.issues.Sublist allIssues :=
  ((env.issuesOf_sublist .uri).append (env.issuesOf_sublist .heartbeat)).append
    (env.issuesOf_sublist .timeout)

theorem subject_of_mem_issuesOf (h : i ∈ env.issuesOf v) : i.subject = v := by
  have hfound := (env.issuesOf_sublist v).mem h
  simpa using (List.mem_filter.mp hfound).2

theorem mem_issues : i ∈ env.issues ↔ i ∈ env.issuesOf i.subject := by
  rw [issues_eq, List.mem_append, List.mem_append]
  constructor
  · rintro ((h | h) | h) <;> exact (subject_of_mem_issuesOf h).symm ▸ h
  · intro h
    generalize i.subject = v at h
    cases v with
    | uri => exact .inl (.inl h)
    | heartbeat => exact .inl (.inr h)
    | timeout => exact .inr h

theorem numberIssues_eq_nil_iff {range : VariableProblem} {inRange : Number → Bool} :
    numberIssues v range inRange x = [] ↔ x.isInteger ∧ inRange x := by
  rw [numberIssues]
  split
  · rename_i hnan
    simp [hnan, Number.isInteger, Number.toInt?]
  · simp

/-- A variable without issues is valid. -/
theorem issuesOf_eq_nil_iff : env.issuesOf v = [] ↔ env.Valid v := by
  cases v with
  | uri =>
    simp only [issuesOf, Valid, ← hasBrokerScheme_iff]
    cases env.get? .uri with
    | none => simp [uriIssues]
    | some uri => simp [uriIssues]
  | heartbeat =>
    have hsmall : ConnectionOptions.defaultHeartbeat < 2 ^ 53 := by decide
    rw [issuesOf, numberIssues_eq_nil_iff, Number.isInteger_iff, Valid, heartbeat,
      admits_iff hsmall (Int.natCast_nonneg _), ← exists_and_right]
    refine exists_congr fun k => and_congr_right fun hvalue => ?_
    rw [Bool.not_eq_true', ← Bool.not_eq_true, Number.lt_zero_of_value? hvalue, not_lt]
  | timeout =>
    have hsmall : ConnectionOptions.defaultTimeout < 2 ^ 53 := by decide
    have hpositive : (0 : Int) < ConnectionOptions.defaultTimeout := by decide
    rw [issuesOf, numberIssues_eq_nil_iff, Number.isInteger_iff, Valid, timeout,
      admits_iff hsmall hpositive, ← exists_and_right]
    exact exists_congr fun k => and_congr_right fun hvalue => Number.zero_lt_of_value? hvalue

theorem issues_eq_nil_iff : env.issues = [] ↔ ∀ v, env.Valid v := by
  simp only [← issuesOf_eq_nil_iff, List.eq_nil_iff_forall_not_mem, mem_issues]
  exact ⟨fun h v i hi => h i ((subject_of_mem_issuesOf hi).symm ▸ hi), fun h i => h i.subject i⟩

/-- The variables with issues are the ones that are not valid. -/
theorem exists_mem_issues_iff : (∃ i ∈ env.issues, i.subject = v) ↔ ¬env.Valid v := by
  rw [← issuesOf_eq_nil_iff]
  constructor
  · rintro ⟨i, hi, rfl⟩
    exact List.ne_nil_of_mem (mem_issues.mp hi)
  · intro hsome
    obtain ⟨i, hi⟩ := List.exists_mem_of_ne_nil _ hsome
    have hsubject := subject_of_mem_issuesOf hi
    exact ⟨i, mem_issues.mpr (hsubject.symm ▸ hi), hsubject⟩

/-! ## The rules that are broken -/

/-- The issues of the address, said by its text. -/
theorem mem_uriIssues : i ∈ uriIssues (env.get? .uri) ↔
    env.get? .uri = none ∧ i = ⟨.uri, .missing⟩ ∨
    (∃ uri, env.get? .uri = some uri ∧ ¬NamesBroker uri) ∧ i = ⟨.uri, .wrongScheme⟩ := by
  simp only [← hasBrokerScheme_iff]
  cases env.get? .uri with
  | none => simp [uriIssues]
  | some uri => by_cases hscheme : hasBrokerScheme uri <;> simp [uriIssues, hscheme]

/-- The issues of a number, said by what the variable asks for. -/
theorem mem_numberIssues {range : VariableProblem} {inRange : Number → Bool}
    {outside : WithBot (WithTop ℚ) → Prop} (hdefault : v.default? = some n)
    (hrange : ∀ {x : Number}, x ≠ .nan →
      (inRange x = false ↔ ∃ a, x.position? = some a ∧ outside a)) :
    i ∈ numberIssues v range inRange (numberOr n (env.get? v)) ↔
      (∀ x, ¬env.Asks v x) ∧ i = ⟨v, .notNumber⟩ ∨
      (∃ x, env.Asks v x ∧ ∀ k : Int, x.value? ≠ some (k : ℚ)) ∧ i = ⟨v, .notInteger⟩ ∨
      (∃ x, env.Asks v x ∧ ∃ a, x.position? = some a ∧ outside a) ∧ i = ⟨v, range⟩ := by
  have hasked {P : Number → Prop} : (∃ x, env.Asks v x ∧ P x) ↔
      numberOr n (env.get? v) ≠ .nan ∧ P (numberOr n (env.get? v)) := by
    simp only [asks_iff hdefault, and_assoc, exists_eq_left']
  rw [not_asks_iff hdefault, hasked, hasked, numberIssues]
  split
  · rename_i hnan
    simp [hnan]
  · rename_i hnumber
    have hinteger : (∀ k : Int, (numberOr n (env.get? v)).value? ≠ some (k : ℚ)) ↔
        ¬(numberOr n (env.get? v)).isInteger := by
      rw [Number.isInteger_iff, not_exists]
    rw [hinteger, ← hrange hnumber]
    by_cases hwhole : (numberOr n (env.get? v)).isInteger <;>
      cases hinside : inRange (numberOr n (env.get? v)) <;> simp [hnumber, hwhole]

/-- The issues that are found are the rules that are broken. -/
theorem mem_issues_iff_breaks : i ∈ env.issues ↔ env.Breaks i := by
  have hnegative {x : Number} (_ : x ≠ .nan) : (!x.lt (.ofNat 0)) = false ↔
      ∃ a, x.position? = some a ∧ a < 0 := by
    rw [Bool.not_eq_false', Number.lt_zero_iff]
  rw [issues, List.mem_append, List.mem_append, mem_uriIssues, heartbeat, timeout,
    mem_numberIssues rfl hnegative, mem_numberIssues rfl Number.zero_lt_eq_false_iff]
  constructor
  · rintro (((⟨hget, rfl⟩ | ⟨⟨uri, hget, hscheme⟩, rfl⟩) | ⟨hnone, rfl⟩ |
      ⟨⟨x, hasks, hfraction⟩, rfl⟩ | ⟨⟨x, hasks, a, hposition, hlow⟩, rfl⟩) | ⟨hnone, rfl⟩ |
      ⟨⟨x, hasks, hfraction⟩, rfl⟩ | ⟨⟨x, hasks, a, hposition, hlow⟩, rfl⟩)
    · exact .missing hget
    · exact .wrongScheme hget hscheme
    · exact .notNumber rfl hnone
    · exact .notInteger hasks hfraction
    · exact .negative hasks hposition hlow
    · exact .notNumber rfl hnone
    · exact .notInteger hasks hfraction
    · exact .notPositive hasks hposition hlow
  · intro h
    cases h with
    | missing hget => exact .inl (.inl (.inl ⟨hget, rfl⟩))
    | wrongScheme hget hscheme => exact .inl (.inl (.inr ⟨⟨_, hget, hscheme⟩, rfl⟩))
    | @notNumber v hnumeric hnone =>
      cases v with
      | uri => cases hnumeric
      | heartbeat => exact .inl (.inr (.inl ⟨hnone, rfl⟩))
      | timeout => exact .inr (.inl ⟨hnone, rfl⟩)
    | @notInteger v x hasks hfraction =>
      cases v with
      | uri => cases hasks.isSome
      | heartbeat => exact .inl (.inr (.inr (.inl ⟨⟨x, hasks, hfraction⟩, rfl⟩)))
      | timeout => exact .inr (.inr (.inl ⟨⟨x, hasks, hfraction⟩, rfl⟩))
    | negative hasks hposition hlow =>
      exact .inl (.inr (.inr (.inr ⟨⟨_, hasks, _, hposition, hlow⟩, rfl⟩)))
    | notPositive hasks hposition hlow =>
      exact .inr (.inr (.inr ⟨⟨_, hasks, _, hposition, hlow⟩, rfl⟩))

/-! ## Loading -/

/-- A selection from a table without repetitions is known by what is in it. -/
theorem eq_of_sublist {α : Type} [DecidableEq α] {l k table : List α} (hnodup : table.Nodup)
    (hl : l.Sublist table) (hk : k.Sublist table) (hsame : ∀ a, a ∈ l ↔ a ∈ k) : l = k := by
  have hfiltered {l : List α} (hl : l.Sublist table) : l = table.filter (· ∈ l) := by
    have hkept : l.Sublist (table.filter (· ∈ l)) := by
      have hkept := hl.filter (· ∈ l)
      rwa [List.filter_eq_self.mpr fun a ha => decide_eq_true ha] at hkept
    refine hkept.eq_of_length_le ((hnodup.filter _).subperm fun a ha => ?_).length_le
    exact of_decide_eq_true (List.mem_filter.mp ha).2
  rw [hfiltered hl, hfiltered hk]
  exact List.filter_congr fun a _ => decide_eq_decide.mpr (hsame a)

theorem load_eq (env : Environment) : env.load =
    if env.issues = [] then .ok ⟨(env.get? .uri).getD "", env.heartbeat, env.timeout⟩
    else .error env.issues := by
  rw [load]
  split
  · rename_i hnone
    rw [if_pos hnone]
  · rename_i hsome
    rw [if_neg hsome]

theorem load_eq_error_iff {issues : List VariableIssue} : env.load = .error issues ↔
    issues ≠ [] ∧ issues.Sublist allIssues ∧ ∀ i, i ∈ issues ↔ env.Breaks i := by
  have hnodup : allIssues.Nodup := by decide
  simp only [load_eq, ← mem_issues_iff_breaks]
  constructor
  · intro h
    split at h
    · cases h
    · rename_i hsome
      obtain rfl := Except.error.inj h
      exact ⟨hsome, env.issues_sublist, fun _ => Iff.rfl⟩
  · rintro ⟨hsome, hsublist, hsame⟩
    obtain rfl := eq_of_sublist hnodup hsublist env.issues_sublist hsame
    rw [if_neg hsome]

/-- A number that is an integer is asked for. -/
theorem asks_of_isInteger (hdefault : v.default? = some n)
    (h : (numberOr n (env.get? v)).isInteger) : env.Asks v (numberOr n (env.get? v)) := by
  refine (asks_iff hdefault).mpr ⟨rfl, fun hnan => ?_⟩
  simp [hnan, Number.isInteger, Number.toInt?] at h

theorem exists_load_eq_ok_iff : (∃ o, env.load = .ok o) ↔ ∀ v, env.Valid v := by
  rw [← issues_eq_nil_iff, load_eq]
  split
  · rename_i hnone
    exact iff_of_true ⟨_, rfl⟩ hnone
  · rename_i hsome
    exact iff_of_false (fun ⟨_, h⟩ => by cases h) hsome

/-- The options are what the variables ask for. -/
theorem asks_of_load (h : env.load = .ok o) : env.get? .uri = some o.uri ∧
    env.Asks .heartbeat o.heartbeat ∧ env.Asks .timeout o.timeout := by
  have hvalid := exists_load_eq_ok_iff.mp ⟨o, h⟩
  have hnone := issues_eq_nil_iff.mpr hvalid
  rw [load_eq, if_pos hnone] at h
  obtain rfl := Except.ok.inj h
  obtain ⟨uri, hget, -⟩ := hvalid .uri
  have hheartbeat := issuesOf_eq_nil_iff.mpr (hvalid .heartbeat)
  have htimeout := issuesOf_eq_nil_iff.mpr (hvalid .timeout)
  simp only [issuesOf, numberIssues_eq_nil_iff] at hheartbeat htimeout
  exact ⟨by rw [hget]; rfl, asks_of_isInteger rfl hheartbeat.1, asks_of_isInteger rfl htimeout.1⟩

/-! ## The report -/

/-- A text that begins with the name of a variable. -/
def Mentions (t : String) (v : Variable) : Prop := ∃ detail, t = v.name ++ ": " ++ detail

/-- A text begins with the name of one variable at most. -/
theorem Mentions.unique {t : String} {w : Variable} (h : Mentions t v) (h' : Mentions t w) :
    v = w := by
  have hfront {v : Variable} (h : Mentions t v) : t.toList.take 5 = v.name.toList.take 5 := by
    obtain ⟨detail, rfl⟩ := h
    have hlong : 5 ≤ v.name.toList.length := by cases v <;> decide
    rw [String.toList_append, String.toList_append, List.append_assoc,
      List.take_append_of_le_length hlong]
  have hsame := (hfront h).symm.trans (hfront h')
  revert hsame
  cases v <;> cases w <;> decide

theorem mentions_message_iff : Mentions i.message v ↔ i.subject = v := by
  have hown : Mentions i.message i.subject := ⟨_, rfl⟩
  exact ⟨hown.unique, fun hsubject => hsubject ▸ hown⟩

/-- Exactly the valid environments are accepted, with the numbers that they ask for. For all others
every rule that is broken is reported once, in the order of the table, and the texts of the report
begin with the names of exactly those variables that are not valid. -/
theorem load_exact (env : Environment) :
    ((∃ o, env.load = .ok o) ↔ ∀ v, env.Valid v) ∧
    (∀ o, env.load = .ok o → env.get? .uri = some o.uri ∧
      env.Asks .heartbeat o.heartbeat ∧ env.Asks .timeout o.timeout) ∧
    (∀ issues, env.load = .error issues ↔
      issues ≠ [] ∧ issues.Sublist allIssues ∧ ∀ i, i ∈ issues ↔ env.Breaks i) ∧
    ∀ issues, env.load = .error issues →
      (environmentReport issues).name = "RMQConfigError" ∧
      ∃ texts, environmentReport issues =
          .config ("Invalid connection configuration: " ++ String.intercalate "; " texts)
            (.list (texts.map .text)) ∧
        texts = issues.map VariableIssue.message ∧
        ∀ v, (∃ t ∈ texts, Mentions t v) ↔ ¬env.Valid v := by
  refine ⟨exists_load_eq_ok_iff, fun o => asks_of_load, fun issues => load_eq_error_iff,
    fun issues h => ⟨rfl, _, rfl, rfl, fun v => ?_⟩⟩
  obtain ⟨-, -, hsame⟩ := load_eq_error_iff.mp h
  rw [← exists_mem_issues_iff]
  simp only [List.mem_map, exists_exists_and_eq_and, mentions_message_iff, hsame,
    mem_issues_iff_breaks]

/-- A mark for a base and blanks are read; a number with a fraction below zero breaks two rules. -/
example : Environment.load [("RMQ_URI", "amqps://broker"), ("RMQ_HEARTBEAT", " 0x1E "),
    ("RMQ_CONNECTION_TIMEOUT_MS", "-1.5")] =
      .error [⟨.timeout, .notInteger⟩, ⟨.timeout, .notPositive⟩] := by
  decide +kernel

end Environment

end Amqp
