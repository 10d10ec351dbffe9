import Amqp.Text.Split

/-!
# Topic patterns

A routing key is a list of words between points. In a pattern `*` stands for one word and `#` for
any number of words; every other word stands for itself.
-/

namespace Amqp.Topic

/-- A word of a pattern or a key. -/
abbrev Word := List Char

/-- The words of a key or a pattern. The empty text is the one empty word. -/
def words (s : String) : List Word := Text.splitOn '.' s.toList

/-- The word for any number of words. -/
def hash : Word := ['#']

/-- The word for one word. -/
def star : Word := ['*']

/-- Whether the words of a pattern cover the words of a key. -/
def covers : List Word → List Word → Bool
  | [], key => key.isEmpty
  | p :: rest, key =>
    if p = hash then
      covers rest key ||
        (match key with
          | [] => false
          | _ :: later => covers (p :: rest) later)
    else
      match key with
      | [] => false
      | w :: later => (p == star || p == w) && covers rest later
termination_by pattern key => pattern.length + key.length

/-- Whether the pattern matches the key. -/
def isMatch (pattern key : String) : Bool := covers (words pattern) (words key)

end Amqp.Topic
