import Amqp.Client.Properties
import Amqp.Proofs.Gathered
import Mathlib.Data.List.Perm.Basic

/-!
# Which properties are kept

Each property has one of four types. Of what a peer sends, a property is kept exactly if it has its
type, with the value that it had, and headers as the table of their own entries; nothing else is
kept. Properties that a caller gives come back as they were, and what is kept is kept again.
-/

namespace Amqp

namespace Value

/-- Elements by their positions. -/
def numbered (xs : List Value) : List (String × Value) := xs.mapIdx fun i x => (toString i, x)

/-- The own entries of a value with parts: its fields, or its elements by their positions. -/
inductive Entries : Value → List (String × Value) → Prop
  | table (fields : List (String × Value)) : Entries (.table fields) fields
  | error (name message : String) (fields : List (String × Value)) :
      Entries (.error name message fields) fields
  | list (xs : List Value) : Entries (.list xs) (numbered xs)
  | bytes (bs : List UInt8) : Entries (.bytes bs) (numbered (bs.map fun b => .ofNat b.toNat))

theorem positional_eq (start : Nat) (xs : List Value) :
    positional start xs = xs.mapIdx fun i x => (toString (start + i), x) := by
  induction xs generalizing start with
  | nil => rfl
  | cons x xs ih =>
    rw [positional, List.mapIdx_cons, ih]
    simp only [Nat.add_zero, Nat.add_assoc, Nat.add_comm 1]

theorem positional_zero (xs : List Value) : positional 0 xs = numbered xs := by
  rw [positional_eq, numbered]
  simp only [Nat.zero_add]

theorem entries?_eq_some_iff {v : Value} {fields : List (String × Value)} :
    v.entries? = some fields ↔ v.Entries fields := by
  constructor
  · intro h
    cases v with
    | table | error =>
      rw [← Option.some_inj.mp h]
      constructor
    | list xs =>
      rw [← Option.some_inj.mp h, positional_zero]
      exact .list xs
    | bytes bs =>
      rw [← Option.some_inj.mp h, positional_zero]
      exact .bytes bs
    | _ => cases h
  · rintro (_ | _ | xs | bs)
    · rfl
    · rfl
    · rw [entries?, positional_zero]
    · rw [entries?, positional_zero]

end Value

/-! ## Types of properties -/

/-- The types that properties have. -/
inductive PropertyType where
  | text
  | headers
  | deliveryMode
  | number
  deriving DecidableEq, Repr

namespace PropertyType

/-- A value of the type, and what is kept of it. -/
inductive Keeps : PropertyType → Value → Value → Prop
  | text (s : String) : Keeps .text (.text s) (.text s)
  | headers {v : Value} {fields : List (String × Value)} :
      v.Entries fields → Keeps .headers v (.table fields)
  | transient : Keeps .deliveryMode (.ofNat 1) (.ofNat 1)
  | persistent : Keeps .deliveryMode (.ofNat 2) (.ofNat 2)
  | number (n : Number) : Keeps .number (.number n) (.number n)

/-- What is kept of a value, if it has the type. -/
def keep? : PropertyType → Value → Option Value
  | text, v => v.asText?.map .text
  | headers, v => v.entries?.map .table
  | deliveryMode, v => (v.asNumber?.bind DeliveryMode.ofNumber?).map fun m => .number m.number
  | number, v => v.asNumber?.map .number

variable {t : PropertyType} {v w x : Value}

theorem ofNumber?_eq_some_iff {n : Number} {m : DeliveryMode} :
    DeliveryMode.ofNumber? n = some m ↔ n = m.number := by
  have hapart : DeliveryMode.transient.number ≠ DeliveryMode.persistent.number := by decide
  rw [DeliveryMode.ofNumber?]
  by_cases hfirst : n = DeliveryMode.transient.number
  · subst hfirst
    cases m <;> simp [hapart]
  · by_cases hsecond : n = DeliveryMode.persistent.number
    · subst hsecond
      cases m <;> simp [hapart, hapart.symm]
    · cases m <;> simp [hfirst, hsecond, Ne.symm hfirst, Ne.symm hsecond]

theorem keep?_eq_some_iff : t.keep? v = some w ↔ t.Keeps v w := by
  constructor
  · intro h
    cases t with
    | text =>
      obtain ⟨s, hs, rfl⟩ := Option.map_eq_some_iff.mp h
      cases v <;> cases hs
      exact .text s
    | headers =>
      obtain ⟨fields, hfields, rfl⟩ := Option.map_eq_some_iff.mp h
      exact .headers (Value.entries?_eq_some_iff.mp hfields)
    | deliveryMode =>
      obtain ⟨m, hm, rfl⟩ := Option.map_eq_some_iff.mp h
      obtain ⟨n, hn, hmode⟩ := Option.bind_eq_some_iff.mp hm
      obtain rfl := ofNumber?_eq_some_iff.mp hmode
      cases v <;> cases hn
      cases m with
      | transient => exact .transient
      | persistent => exact .persistent
    | number =>
      obtain ⟨n, hn, rfl⟩ := Option.map_eq_some_iff.mp h
      cases v <;> cases hn
      exact .number n
  · rintro (_ | hentries | _ | _ | _)
    · rfl
    · rw [keep?, Value.entries?_eq_some_iff.mpr hentries]
      rfl
    · rfl
    · rfl
    · rfl

/-- What is kept has the type, and all of it is kept again. -/
theorem Keeps.again (h : t.Keeps v w) : t.Keeps w w := by
  cases h with
  | text s => exact .text s
  | headers => exact .headers (.table _)
  | transient => exact .transient
  | persistent => exact .persistent
  | number n => exact .number n

/-- One value is kept in one way. -/
theorem Keeps.unique (h : t.Keeps v w) (h' : t.Keeps v x) : w = x :=
  Option.some_inj.mp ((keep?_eq_some_iff.mpr h).symm.trans (keep?_eq_some_iff.mpr h'))

/-- Nothing is kept of a value that was never given. -/
theorem Keeps.ne_undefined (h : t.Keeps v w) : v ≠ .undefined := by
  rintro rfl
  cases h with
  | headers hentries => cases hentries

end PropertyType

/-! ## Tables of properties -/

namespace Properties

open PropertyType (Keeps)

/-- The properties and their types, in the order in which they are written. -/
def declared : List (String × PropertyType) :=
  [("contentType", .text), ("contentEncoding", .text), ("correlationId", .text),
    ("replyTo", .text), ("expiration", .text), ("messageId", .text), ("type", .text),
    ("userId", .text), ("appId", .text), ("headers", .headers), ("deliveryMode", .deliveryMode),
    ("priority", .number), ("timestamp", .number)]

theorem nodup_declared : (declared.map (·.1)).Nodup := by decide

/-- The properties that are kept of the fields of a value. -/
def kept (v : Value) : List (String × Value) :=
  declared.flatMap fun d => part d.1 (d.2.keep? (v.field d.1))

/-- Taking the properties out of a value and writing them into a table goes property by property. -/
theorem toValue_ofValue (v : Value) : (ofValue v).toValue = .table (kept v) := by
  simp only [toValue, kept, declared, List.flatMap_cons, List.flatMap_nil, List.append_assoc,
    List.append_nil]
  rfl

theorem mem_part {name : String} {v : Option Value} {f : String × Value} :
    f ∈ part name v ↔ f.1 = name ∧ v = some f.2 := by
  cases v with
  | none => simp [part]
  | some v =>
    obtain ⟨n, w⟩ := f
    simp [part, eq_comm]

variable {v w x : Value} {name : String} {t t' : PropertyType} {fields : List (String × Value)}

/-- A property has one type. -/
theorem eq_of_mem_declared (h : (name, t) ∈ declared) (h' : (name, t') ∈ declared) : t = t' :=
  congrArg Prod.snd (List.inj_on_of_nodup_map nodup_declared h h' rfl)

/-- A property is kept exactly if it has its type. -/
theorem mem_kept : (name, w) ∈ kept v ↔ ∃ t, (name, t) ∈ declared ∧ t.Keeps (v.field name) w := by
  rw [kept, List.mem_flatMap]
  constructor
  · rintro ⟨⟨n, t⟩, hdeclares, h⟩
    obtain ⟨rfl, h⟩ := mem_part.mp h
    exact ⟨t, hdeclares, PropertyType.keep?_eq_some_iff.mp h⟩
  · rintro ⟨t, hdeclares, h⟩
    exact ⟨(name, t), hdeclares, mem_part.mpr ⟨rfl, PropertyType.keep?_eq_some_iff.mpr h⟩⟩

/-- Parts of different names are named differently. -/
theorem names_sublist (f : String × PropertyType → Option Value)
    (ds : List (String × PropertyType)) :
    ((ds.flatMap fun d => part d.1 (f d)).map (·.1)).Sublist (ds.map (·.1)) := by
  induction ds with
  | nil => exact List.Sublist.refl _
  | cons d ds ih =>
    rw [List.flatMap_cons, List.map_append, List.map_cons]
    cases f d with
    | none => exact ih.cons _
    | some v => exact ih.cons_cons _

theorem nodup_kept (v : Value) : ((kept v).map (·.1)).Nodup :=
  (names_sublist _ _).nodup nodup_declared

/-! ## Fields of tables -/

theorem field_of_mem (hdistinct : (fields.map (·.1)).Nodup) (h : (name, v) ∈ fields) :
    (Value.table fields).field name = v := by
  have hfound := (find?_eq_some_iff_of_nodup hdistinct).mpr ⟨h, rfl⟩
  simp only [Value.field, Value.read, Value.field?, Value.fieldIn?, hfound, Option.map_some,
    Option.getD_some]

theorem mem_of_field (h : (Value.table fields).field name ≠ .undefined) :
    (name, (Value.table fields).field name) ∈ fields := by
  cases hfound : fields.find? (·.1 == name) with
  | none => simp [Value.field, Value.read, Value.field?, Value.fieldIn?, hfound] at h
  | some f =>
    have hnamed : f.1 = name := by simpa using List.find?_some hfound
    have hfield : (Value.table fields).field name = f.2 := by
      simp [Value.field, Value.read, Value.field?, Value.fieldIn?, hfound]
    rw [hfield, ← hnamed]
    exact List.mem_of_find?_eq_some hfound

/-! ## Keeping again -/

/-- A property is kept of what is kept exactly as it was kept before. -/
theorem keep?_field_kept (hdeclares : (name, t) ∈ declared) :
    t.keep? ((Value.table (kept v)).field name) = t.keep? (v.field name) := by
  refine Option.ext fun w => ?_
  rw [PropertyType.keep?_eq_some_iff, PropertyType.keep?_eq_some_iff]
  constructor
  · intro hkeeps
    obtain ⟨t', hdeclares', hkeeps'⟩ := mem_kept.mp (mem_of_field hkeeps.ne_undefined)
    obtain rfl := eq_of_mem_declared hdeclares hdeclares'
    rwa [← hkeeps'.again.unique hkeeps]
  · intro hkeeps
    rw [field_of_mem (nodup_kept v) (mem_kept.mpr ⟨t, hdeclares, hkeeps⟩)]
    exact hkeeps.again

theorem kept_kept (v : Value) : kept (.table (kept v)) = kept v :=
  List.flatMap_congr fun d hdeclares => congrArg (part d.1) (keep?_field_kept hdeclares)

/-- Fields as a caller gives them: each is a property of its type, or is left open. -/
structure Typed (fields : List (String × Value)) : Prop where
  distinct : (fields.map (·.1)).Nodup
  typed : ∀ name v, (name, v) ∈ fields →
    ∃ t, (name, t) ∈ declared ∧ (v = .undefined ∨ t.Keeps v v)

/-- Of fields as a caller gives them, all that are not left open are kept, as they are. -/
theorem Typed.mem_kept_iff (h : Typed fields) :
    (name, v) ∈ kept (.table fields) ↔ (name, v) ∈ fields ∧ v ≠ .undefined := by
  rw [mem_kept]
  constructor
  · rintro ⟨t, hdeclares, hkeeps⟩
    have hgiven := mem_of_field hkeeps.ne_undefined
    obtain ⟨t', hdeclares', hundefined | hkeeps'⟩ := h.typed _ _ hgiven
    · exact absurd hundefined hkeeps.ne_undefined
    · obtain rfl := eq_of_mem_declared hdeclares hdeclares'
      obtain rfl := hkeeps'.unique hkeeps
      exact ⟨hgiven, hkeeps.ne_undefined⟩
  · rintro ⟨hgiven, hne⟩
    obtain ⟨t, hdeclares, hundefined | hkeeps⟩ := h.typed _ _ hgiven
    · exact absurd hundefined hne
    · rw [field_of_mem h.distinct hgiven]
      exact ⟨t, hdeclares, hkeeps⟩

theorem Typed.perm_kept (h : Typed fields) :
    (kept (.table fields)).Perm (fields.filter fun f => !f.2.isUndefined) := by
  refine (List.perm_ext_iff_of_nodup (nodup_kept _).of_map (h.distinct.of_map.filter _)).mpr ?_
  rintro ⟨name, v⟩
  rw [h.mem_kept_iff, List.mem_filter]
  cases v <;> simp [Value.isUndefined]

/-! ## What is written is read -/

theorem fieldIn?_part (n : String) (v : Option Value) (rest : List (String × Value)) :
    Value.fieldIn? name (part n v ++ rest) =
      if n = name then v.or (Value.fieldIn? name rest) else Value.fieldIn? name rest := by
  cases v with
  | none => simp [part]
  | some v => by_cases h : n = name <;> simp [part, Value.fieldIn?, h]

theorem asText?_text (s : Option String) : ((s.map Value.text).getD .undefined).asText? = s := by
  cases s <;> rfl

theorem entries?_table (fs : Option (List (String × Value))) :
    ((fs.map Value.table).getD .undefined).entries? = fs := by
  cases fs <;> rfl

theorem asNumber?_number (n : Option Number) :
    ((n.map Value.number).getD .undefined).asNumber? = n := by
  cases n <;> rfl

theorem ofNumber?_number (m : Option DeliveryMode) :
    ((m.map fun m => Value.number m.number).getD .undefined).asNumber?.bind
      DeliveryMode.ofNumber? = m := by
  cases m with
  | none => rfl
  | some m => exact PropertyType.ofNumber?_eq_some_iff.mpr rfl

/-- Properties are read as they were written. -/
theorem ofValue_toValue (p : Properties) : ofValue p.toValue = p := by
  have htable (name : String) (fields : List (String × Value)) :
      (Value.table fields).field name = (Value.fieldIn? name fields).getD .undefined := rfl
  have hnothing (name : String) : Value.fieldIn? name [] = none := rfl
  -- Every part is searched in front of others, the last one in front of nothing.
  rw [toValue, ← List.append_nil (part "timestamp" _)]
  simp only [ofValue, htable, List.append_assoc, fieldIn?_part, hnothing, String.reduceEq, if_true,
    if_false, Option.or_none, asText?_text, entries?_table, asNumber?_number, ofNumber?_number]

theorem outgoing_table (fields : List (String × Value)) :
    outgoing (.table fields) = .table fields := rfl

/-- What is received is kept as far as it is known, if there is anything. -/
theorem incoming_of_isGiven {v : Value} (h : v.isGiven = true) :
    incoming v = .ok (ofValue v).toValue := by
  cases v with
  | undefined | null => cases h
  | _ => rfl

/-- **Properties.** What is sent of the properties of a message is received as these properties. Of
fields that a caller gives, those that are not left open are received as they are. Of any value that
is received, a property is kept exactly if the value has, in its place, something of its type, and
as the same value, with headers as the table of their own entries; and what is kept is kept
unchanged when it is received again. -/
theorem kept_exactly :
    (∀ p : Properties, incoming (outgoing p.toValue) = .ok p.toValue) ∧
    (∀ fields, Typed fields → ∃ kept, incoming (outgoing (.table fields)) = .ok (.table kept) ∧
      kept.Perm (fields.filter fun f => !f.2.isUndefined)) ∧
    ∀ v, v.isGiven = true → ∃ kept, incoming v = .ok (.table kept) ∧
      (kept.map (·.1)).Nodup ∧
      (∀ name w, (name, w) ∈ kept ↔
        ∃ t, (name, t) ∈ declared ∧ t.Keeps (v.field name) w) ∧
      incoming (.table kept) = .ok (.table kept) := by
  have hreceived {v : Value} (h : v.isGiven = true) : incoming v = .ok (.table (kept v)) := by
    rw [incoming_of_isGiven h, toValue_ofValue]
  refine ⟨fun p => ?_, fun fields htyped => ?_, fun v hgiven => ?_⟩
  · rw [toValue, outgoing_table, ← toValue, incoming_of_isGiven rfl, ofValue_toValue]
  · exact ⟨_, hreceived rfl, htyped.perm_kept⟩
  · refine ⟨kept v, hreceived hgiven, nodup_kept v, fun _ _ => mem_kept, ?_⟩
    rw [hreceived rfl, kept_kept]

/-- A list of headers is kept as a table, and a delivery mode that there is not is left out. -/
theorem kept_exactly_illTyped : ∃ kept,
    incoming (.table [("headers", .list [.null]), ("deliveryMode", .ofNat 3)]) =
        .ok (.table kept) ∧
      ("headers", .table [("0", .null)]) ∈ kept ∧ ∀ w, ("deliveryMode", w) ∉ kept := by
  obtain ⟨kept, hreceived, -, hmem, -⟩ := kept_exactly.2.2
    (.table [("headers", .list [.null]), ("deliveryMode", .ofNat 3)]) rfl
  refine ⟨kept, hreceived, (hmem _ _).mpr ⟨.headers, by decide, .headers (.list _)⟩, fun w h => ?_⟩
  obtain ⟨t, hdeclares, hkeeps⟩ := (hmem _ _).mp h
  obtain rfl : t = .deliveryMode := eq_of_mem_declared hdeclares (by decide)
  cases PropertyType.keep?_eq_some_iff.mpr hkeeps

end Properties

end Amqp
