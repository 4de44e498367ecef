import Reckoner.Double.Rounding

/-!
# Decimal numerals

A `Numeral` is an unsigned decimal as it is typed: digits with at most one dot among them, before
them or behind them. Its value is the nearest double to the exact fraction that it writes.
-/

namespace Reckoner

/-- The characters of numerals: the ten ASCII digits and the dot. -/
def isDigitOrDot (c : Char) : Bool := c.isDigit || c == '.'

/-- A run of digits and dots that is a number: it has a digit and no second dot. -/
structure Numeral where
  run : List Char
  all_isDigitOrDot : run.all isDigitOrDot = true
  any_isDigit : run.any Char.isDigit = true
  count_dot_le : run.count '.' ≤ 1
deriving DecidableEq

namespace Numeral

/-- The numeral written by a run of characters, if it is one. -/
def ofRun? (run : List Char) : Option Numeral :=
  if h : run.all isDigitOrDot = true ∧ run.any Char.isDigit = true ∧ run.count '.' ≤ 1 then
    some ⟨run, h.1, h.2.1, h.2.2⟩
  else none

/-- The natural that the digits write when the dot is left out. -/
def coefficient (n : Numeral) : Nat := Nat.ofDigitChars 10 (n.run.filter Char.isDigit) 0

/-- The number of digits behind the dot. -/
def places (n : Numeral) : Nat := (n.run.dropWhile (· != '.')).length - 1

/-- The double nearest to `coefficient / 10 ^ places`. -/
def value (n : Numeral) : Double := .ofFraction n.coefficient (Nat.pow 10 n.places)

theorem run_of_ofRun?_eq_some {run : List Char} {n : Numeral} (h : ofRun? run = some n) :
    n.run = run := by
  unfold ofRun? at h
  split at h
  · cases h; rfl
  · contradiction

@[simp] theorem ofRun?_run (n : Numeral) : ofRun? n.run = some n := by
  unfold ofRun?
  rw [dif_pos ⟨n.all_isDigitOrDot, n.any_isDigit, n.count_dot_le⟩]

/-- A run of digits and dots fails to be a numeral for one of two reasons: it has no digit, or it
has two dots. -/
theorem ofRun?_eq_none_iff {run : List Char} (h : run.all isDigitOrDot = true) :
    ofRun? run = none ↔ run.any Char.isDigit = false ∨ 2 ≤ run.count '.' := by
  unfold ofRun?
  split
  · rename_i valid
    obtain ⟨-, digit, dots⟩ := valid
    simp only [reduceCtorEq, digit, Bool.true_eq_false, false_or, false_iff]
    omega
  · rename_i invalid
    simp only [true_iff]
    cases digit : run.any Char.isDigit with
    | false => exact .inl rfl
    | true =>
      have dots : ¬ run.count '.' ≤ 1 := fun dots => invalid ⟨h, digit, dots⟩
      exact .inr (Nat.lt_of_not_le dots)

end Numeral

end Reckoner
