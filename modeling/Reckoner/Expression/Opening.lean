import Reckoner.Decimal.Numeral
import Reckoner.Expression.Symbol
import Reckoner.Text.Scan

/-!
# How an operand opens

Where an operand is expected, the first thing behind the spaces decides how reading goes on.
`Opening.ofText` tells the cases apart. Runs of digits and dots and runs of lowercase letters are
taken as long as they are; the names of functions are tried before both.
-/

namespace Reckoner

/-- What stands where an operand is expected, with the text behind it. -/
inductive Opening where
  | sign (sign : Sign) (rest : List Char)
  | parenthesis (rest : List Char)
  | builtin (function : Builtin) (rest : List Char)
  /-- A longest run of digits and dots. -/
  | number (run rest : List Char)
  /-- A longest run of lowercase ASCII letters. -/
  | word (run rest : List Char)
  /-- A character that begins no operand; it is still the first of the rest. -/
  | other (c : Char) (rest : List Char)
  | nothing
deriving DecidableEq, Repr

namespace Opening

/-- The opening at the front of a text without leading spaces. -/
def ofTrimmed : List Char → Opening
  | [] => .nothing
  | c :: rest =>
    match Sign.ofSymbol? c with
    | some mark => .sign mark rest
    | none =>
      if c = '(' then .parenthesis rest
      else match Builtin.leading? (c :: rest) with
        | some (function, behind) => .builtin function behind
        | none =>
          if isDigitOrDot c then
            .number (c :: rest.takeWhile isDigitOrDot) (rest.dropWhile isDigitOrDot)
          else if c.isLower then
            .word (c :: rest.takeWhile Char.isLower) (rest.dropWhile Char.isLower)
          else .other c (c :: rest)

/-- The opening at the front of a text. -/
def ofText (s : List Char) : Opening := ofTrimmed (skipSpaces s)

/-- The text behind what has been taken. Nothing is taken of a character that begins no operand, nor
at the end of the text. -/
def behind? : Opening → Option (List Char)
  | .sign _ rest | .parenthesis rest | .builtin _ rest | .number _ rest | .word _ rest => some rest
  | .other _ _ | .nothing => none

end Opening

theorem length_add_of_isPrefixOf?_eq_some {α : Type} [BEq α] :
    ∀ {word s rest : List α}, word.isPrefixOf? s = some rest → word.length + rest.length = s.length
  | [], s, rest, h => by
    have same : s = rest := Option.some.inj h
    rw [same, List.length_nil, Nat.zero_add]
  | _ :: _, [], _, h => nomatch h
  | a :: word, b :: s, rest, h => by
    change (if a == b then word.isPrefixOf? s else none) = some rest at h
    split at h
    · have := length_add_of_isPrefixOf?_eq_some h
      simp only [List.length_cons]
      omega
    · contradiction

theorem Builtin.length_name_pos (function : Builtin) : 0 < function.name.length := by
  cases function <;> decide

theorem Builtin.length_lt_of_leading?_eq_some {s rest : List Char} {function : Builtin}
    (h : leading? s = some (function, rest)) : rest.length < s.length := by
  unfold leading? at h
  obtain ⟨f, -, found⟩ := List.exists_of_findSome?_eq_some h
  rw [Option.map_eq_some_iff] at found
  obtain ⟨t, isPrefix, same⟩ := found
  cases same
  have := length_add_of_isPrefixOf?_eq_some isPrefix
  have := function.length_name_pos
  omega

/-- Whatever opens an operand takes at least one character. -/
theorem Opening.length_lt_of_behind? {s rest : List Char} (h : (ofText s).behind? = some rest) :
    rest.length < s.length := by
  have le := length_skipSpaces_le s
  unfold ofText at h
  cases trimmed : skipSpaces s with
  | nil => simp [trimmed, ofTrimmed, behind?] at h
  | cons c t =>
    rw [trimmed, List.length_cons] at le
    have digits := (List.dropWhile_sublist (l := t) isDigitOrDot).length_le
    have letters := (List.dropWhile_sublist (l := t) Char.isLower).length_le
    rw [trimmed] at h
    simp only [ofTrimmed] at h
    split at h
    · cases h; omega
    · split at h
      · cases h; omega
      · split at h
        · rename_i named
          have shorter := Builtin.length_lt_of_leading?_eq_some named
          cases h
          simp only [List.length_cons] at shorter
          omega
        · split at h
          · cases h; omega
          · split at h
            · cases h; omega
            · contradiction

end Reckoner
