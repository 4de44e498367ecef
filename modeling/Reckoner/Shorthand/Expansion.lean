import Reckoner.Shorthand.Substitution

/-!
# Shorthand for whole division and powers

`a//b` and `a^b` are shorthand for function calls. `expand` writes the calls out, in four
substitutions, each on the result of the one before:

1. `a//b` between two runs of digits becomes a floored quotient;
2. every `//` that is left becomes the beginning of a floored quotient, which stays open;
3. such a beginning in front of a plain quotient of two runs of digits is closed behind it;
4. `a^b` between two runs of digits becomes a power.

Operands are runs of ASCII digits, taken as long as they are. A `^` with anything else beside it
stays as it is.
-/

namespace Reckoner.Shorthand

/-- Two runs of digits with `separator` between them, at the front of a text. -/
structure Operands (s : List Char) where
  left : List Char
  right : List Char
  rest : List Char
  length_lt : rest.length < s.length

/-- What stands behind a word, if the text begins with the word. -/
def behind? (word s : List Char) : Option (List Char) :=
  if word <+: s then some (s.drop word.length) else none

theorem length_le_of_behind?_eq_some {word s rest : List Char} (h : behind? word s = some rest) :
    rest.length ≤ s.length := by
  unfold behind? at h
  split at h
  · cases h; simp
  · contradiction

theorem length_lt_of_behind?_eq_some {word s rest : List Char} (nonempty : word ≠ [])
    (h : behind? word s = some rest) : rest.length < s.length := by
  unfold behind? at h
  split at h
  · rename_i begins
    cases h
    have := begins.length_le
    have := List.length_pos_iff.2 nonempty
    rw [List.length_drop]
    omega
  · contradiction

/-- The operands of a separator at the front of the text. -/
def operands? (separator s : List Char) : Option (Operands s) :=
  match left : s.takeWhile Char.isDigit with
  | [] => none
  | a :: as =>
    match found : behind? separator (s.dropWhile Char.isDigit) with
    | none => none
    | some behind =>
      match behind.takeWhile Char.isDigit with
      | [] => none
      | b :: bs =>
        some ⟨a :: as, b :: bs, behind.dropWhile Char.isDigit, by
          have tail := (List.dropWhile_sublist (l := behind) Char.isDigit).length_le
          have middle := length_le_of_behind?_eq_some found
          have whole := congrArg List.length
            (List.takeWhile_append_dropWhile (p := Char.isDigit) (l := s))
          rw [left, List.length_append, List.length_cons] at whole
          omega⟩

/-- How a floored quotient begins. The factor `1.0` is part of the wording. -/
def floorBegins : List Char := "Math.floor(1.0*".toList

/-- The floored quotient of two runs of digits. -/
def flooredQuotient (a b : List Char) : List Char := floorBegins ++ a ++ '/' :: b ++ [')']

/-- The power of two runs of digits. -/
def powerCall (a b : List Char) : List Char := "Math.pow(".toList ++ a ++ ',' :: b ++ [')']

/-- A whole division of two runs of digits. -/
def wholeDivision : Pattern := fun s =>
  (operands? "//".toList s).map fun o => ⟨flooredQuotient o.left o.right, o.rest, o.length_lt⟩

/-- A double slash, whatever stands beside it. -/
def doubleSlash : Pattern := fun s =>
  match found : behind? "//".toList s with
  | none => none
  | some rest => some ⟨floorBegins, rest, length_lt_of_behind?_eq_some (by decide) found⟩

/-- The text behind a closing parenthesis, or the text itself if it begins with none. -/
def dropParenthesis : List Char → List Char
  | ')' :: rest => rest
  | s => s

theorem length_dropParenthesis_le (s : List Char) : (dropParenthesis s).length ≤ s.length := by
  unfold dropParenthesis
  split
  · exact Nat.le_succ _
  · exact Nat.le_refl _

/-- The beginning of a floored quotient with its two runs of digits, closed or not. -/
def openFloor : Pattern := fun s =>
  match found : behind? floorBegins s with
  | none => none
  | some inside =>
    (operands? ['/'] inside).map fun o =>
      ⟨flooredQuotient o.left o.right, dropParenthesis o.rest, by
        have := length_dropParenthesis_le o.rest
        have := o.length_lt
        have := length_le_of_behind?_eq_some found
        omega⟩

/-- A power of two runs of digits. -/
def digitPower : Pattern := fun s =>
  (operands? ['^'] s).map fun o => ⟨powerCall o.left o.right, o.rest, o.length_lt⟩

/-- The text with all shorthand written out. -/
def expand (s : List Char) : List Char :=
  digitPower.substitute (openFloor.substitute (doubleSlash.substitute (wholeDivision.substitute s)))

end Reckoner.Shorthand
