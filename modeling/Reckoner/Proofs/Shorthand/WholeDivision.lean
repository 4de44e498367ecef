import Reckoner.Proofs.Double.Naturals
import Reckoner.Proofs.Shorthand.Respelling

/-!
# Whole division

`a//b` stands for the floor of a quotient that has been rounded. For naturals of up to fifty-three
bits it is whole division all the same.
-/

namespace Reckoner

namespace DigitRun

/-- The natural that a run of digits writes. -/
def natural (a : DigitRun) : Nat := Nat.ofDigitChars 10 a.digits 0

theorem value_numeral (a : DigitRun) : a.numeral.value = .ofFraction a.natural 1 := by
  have digits : a.digits.filter Char.isDigit = a.digits :=
    List.filter_eq_self.2 (List.all_eq_true.1 a.all_isDigit)
  have noDot : a.digits.dropWhile (· != '.') = [] := by
    have absent : '.' ∉ a.digits := a.not_mem rfl
    simpa using dropWhile_append_of_stops (all_ne_of_not_mem absent) stops_nil
  rw [Numeral.value, Numeral.coefficient, Numeral.places, numeral, digits, noDot, natural]
  rfl

theorem isNatural_value_numeral {a : DigitRun} (le : a.natural ≤ 2 ^ 53) :
    Double.IsNatural a.natural a.numeral.value := by
  rw [value_numeral]
  exact Double.isNatural_ofFraction le

end DigitRun

/-- A whole division of two runs of digits is evaluated to the quotient of the naturals, as long as
these have no more than fifty-three bits. Leading zeros do not count. -/
theorem evaluate_wholeDivision {limit : Nat} (room : 2 ≤ limit) {a b : DigitRun}
    (leDividend : a.natural ≤ 2 ^ 53) (pos : 1 ≤ b.natural) (leDivisor : b.natural ≤ 2 ^ 53) :
    ∃ v, evaluate limit (a.digits ++ "//".toList ++ b.digits) = .ok v ∧
      v.IsNatural (a.natural / b.natural) := by
  have typed : a.digits ++ "//".toList ++ b.digits = (Formula.wholeDivision a b).text :=
    List.append_assoc _ _ _
  have writes := (Formula.wholeDivision a b).writes_expand_text
  have nesting : (Formula.wholeDivision a b).nesting ≤ limit := room
  refine ⟨(Formula.wholeDivision a b).value, ?_, ?_⟩
  · rw [typed, evaluate, readValue_of_writes_of_le writes nesting, Formula.value_tree]
  · have one := Double.isNatural_ofFraction (n := 1) (by decide)
    have dividend := one.one_mul (DigitRun.isNatural_value_numeral leDividend)
    exact Double.floor_quotient leDividend pos leDivisor dividend
      (DigitRun.isNatural_value_numeral leDivisor)

/-- The quotient nearest to one from below, where rounding comes closest to the next natural. -/
theorem evaluate_wholeDivision_belowOne :
    ∃ v,
      evaluate 2 ("09007199254740991".toList ++ "//".toList ++ "9007199254740992".toList) = .ok v ∧
      v.IsNatural 0 := by
  have evaluated := evaluate_wholeDivision (show 2 ≤ 2 by decide)
    (a := ⟨"09007199254740991".toList, by decide, by decide⟩)
    (b := ⟨"9007199254740992".toList, by decide, by decide⟩)
    (by decide) (by decide) (by decide)
  have quotient : Nat.ofDigitChars 10 "09007199254740991".toList 0 /
      Nat.ofDigitChars 10 "9007199254740992".toList 0 = 0 := by decide
  rwa [DigitRun.natural, DigitRun.natural, quotient] at evaluated

end Reckoner
