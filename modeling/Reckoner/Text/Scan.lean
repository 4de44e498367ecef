/-!
# Reading from the front of a text

The steps that every reader of expressions is made of, on the list of characters that remain. Only
the space itself counts as a blank, and blanks are passed over in front of a single expected
character, never inside a word or a number.
-/

namespace Reckoner

/-- The text behind its leading spaces. -/
def skipSpaces (s : List Char) : List Char := s.dropWhile (· == ' ')

/-- The text behind `expected`, if that is the first character behind the leading spaces. -/
def accept? (expected : Char) (s : List Char) : Option (List Char) :=
  match skipSpaces s with
  | c :: rest => if c = expected then some rest else none
  | [] => none

theorem length_skipSpaces_le (s : List Char) : (skipSpaces s).length ≤ s.length :=
  (List.dropWhile_sublist _).length_le

theorem length_lt_of_skipSpaces_eq_cons {s rest : List Char} {c : Char}
    (h : skipSpaces s = c :: rest) : rest.length < s.length := by
  have := length_skipSpaces_le s
  rw [h, List.length_cons] at this
  exact this

theorem length_lt_of_accept?_eq_some {s rest : List Char} {c : Char}
    (h : accept? c s = some rest) : rest.length < s.length := by
  unfold accept? at h
  split at h
  · rename_i first
    split at h
    · cases h
      exact length_lt_of_skipSpaces_eq_cons first
    · contradiction
  · contradiction

/-- The text behind a closing parenthesis. The parenthesis may be missing. -/
def closing (s : List Char) : List Char :=
  match accept? ')' s with
  | some rest => rest
  | none => skipSpaces s

theorem length_closing_le (s : List Char) : (closing s).length ≤ s.length := by
  unfold closing
  split
  · rename_i found
    exact Nat.le_of_lt (length_lt_of_accept?_eq_some found)
  · exact length_skipSpaces_le s

end Reckoner
