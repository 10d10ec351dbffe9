/-!
# Parts between separators

A text is cut at every separator, so that joining the parts with the separator gives it back. There
is always at least one part, and the empty text has the one empty part.
-/

namespace Amqp.Text

/-- The parts between the separators; there is at least one. -/
def splitOn (separator : Char) : List Char → List (List Char)
  | [] => [[]]
  | c :: rest =>
    if c = separator then [] :: splitOn separator rest
    else
      match splitOn separator rest with
      | part :: parts => (c :: part) :: parts
      | [] => [[c]]

/-- There is at least one part. -/
theorem splitOn_ne_nil (separator : Char) (cs : List Char) : splitOn separator cs ≠ [] := by
  cases cs with
  | nil => simp [splitOn]
  | cons c rest =>
    rw [splitOn]
    split
    · simp
    · split <;> simp

end Amqp.Text
