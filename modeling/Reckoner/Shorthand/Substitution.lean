/-!
# Substitution of occurrences

A `Pattern` recognises something at the front of a text and says what to write in its place.
`substitute` replaces its occurrences from left to right: at each place where one begins it is
replaced and the search goes on behind it, so occurrences never overlap; at every other place one
character is kept.
-/

namespace Reckoner

/-- Something recognised at the front of the text `s`. It takes at least one character. -/
structure Occurrence (s : List Char) where
  /-- What is written in its place. -/
  replacement : List Char
  /-- The text behind it. -/
  rest : List Char
  length_lt : rest.length < s.length

/-- A way to recognise something at the front of any text. -/
abbrev Pattern := (s : List Char) → Option (Occurrence s)

namespace Pattern

/-- The text with every occurrence replaced, from left to right. -/
def substitute (pattern : Pattern) (s : List Char) : List Char :=
  match s with
  | [] => []
  | c :: rest =>
    match pattern (c :: rest) with
    | some found => found.replacement ++ pattern.substitute found.rest
    | none => c :: pattern.substitute rest
termination_by s.length
decreasing_by
  · exact found.length_lt
  · exact Nat.lt_succ_self _

@[simp] theorem substitute_nil (pattern : Pattern) : pattern.substitute [] = [] := by
  rw [substitute]

theorem substitute_of_some {pattern : Pattern} {c : Char} {rest : List Char}
    {found : Occurrence (c :: rest)} (h : pattern (c :: rest) = some found) :
    pattern.substitute (c :: rest) = found.replacement ++ pattern.substitute found.rest := by
  rw [substitute, h]

theorem substitute_of_none {pattern : Pattern} {c : Char} {rest : List Char}
    (h : pattern (c :: rest) = none) :
    pattern.substitute (c :: rest) = c :: pattern.substitute rest := by
  rw [substitute, h]

end Pattern

end Reckoner
