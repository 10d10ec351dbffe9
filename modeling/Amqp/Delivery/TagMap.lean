import Amqp.Delivery.Tag

/-!
# Entries by tag

Both ends of a channel keep account of what waits for a settlement, by tag and in the order it
arrived. A settlement covers its own tag alone, or all tags up to it.
-/

namespace Amqp

/-- Entries by tag, in the order they arrived. -/
abbrev TagMap (α : Type) := List (Tag × α)

namespace TagMap

variable {α : Type}

/-- Adds an entry; one with the same tag gives up its place to it. -/
def track (tag : Tag) (entry : α) : TagMap α → TagMap α
  | [] => [(tag, entry)]
  | (t, e) :: rest =>
    if t.same tag then (t, entry) :: rest else (t, e) :: track tag entry rest

/-- The entry of a tag. -/
def entry? (m : TagMap α) (tag : Tag) : Option α := (m.find? fun e => e.1.same tag).map (·.2)

/-- The entries but for that of a tag. -/
def remove (m : TagMap α) (tag : Tag) : TagMap α := m.filter fun e => !e.1.same tag

/-- What a settlement leaves of the entries, and what it covers besides its own. -/
structure Swept (α : Type) where
  kept : TagMap α
  covered : TagMap α := []
  /-- What stopped it: a tag that cannot be compared. -/
  fault : Option Value := none

/-- Takes out the entries before the tag, one after the other. -/
def sweep (tag : Tag) : TagMap α → Swept α
  | [] => ⟨[], [], none⟩
  | (t, e) :: rest =>
    match t.before tag with
    | .error fault => ⟨(t, e) :: rest, [], some fault⟩
    | .ok true =>
      let s := sweep tag rest
      { s with covered := (t, e) :: s.covered }
    | .ok false =>
      let s := sweep tag rest
      { s with kept := (t, e) :: s.kept }

/-- Settles the entry of the tag, and with `multiple` all entries before it. -/
def settle (m : TagMap α) (tag : Tag) (multiple : Bool) : Swept α :=
  if multiple then sweep tag (m.remove tag) else ⟨m.remove tag, [], none⟩

end TagMap

end Amqp
