import Reckoner.Double.Basic

/-!
# Rounding to the nearest double

One function carries all rounding of the project: `nearestRank num den` is the rank whose magnitude
lies nearest to the exact value `num / den` units, and of two equally near the one with the even
significand. Arithmetic and the reading of decimals compute an exact fraction and round it once.
-/

namespace Reckoner

/-- The natural nearest to `num / den`; a half goes to the even neighbour. -/
def roundHalfEven (num den : Nat) : Nat :=
  let whole := num / den
  match compare (2 * (num % den)) den with
  | .lt => whole
  | .eq => whole + whole % 2
  | .gt => whole + 1

/-- The rank nearest to `num / den` units. Below `2 ^ 53` units the spacing is one unit; beyond, it
is what leaves a significand of fifty-three bits. A significand that rounds up to `2 ^ 53` carries
into the next binade by itself, because ranks count on across binades. -/
def nearestRank (num den : Nat) : Nat :=
  let shift := (num / den).log2 - 52
  shift * ranksPerBinade + roundHalfEven num (den * Nat.pow 2 shift)

namespace Double

/-- The double nearest to `num / den` units, with the given sign; infinite from the overflow rank
on. -/
def ofUnits (negative : Bool) (num den : Nat) : Double :=
  let rank := nearestRank num den
  if h : rank < overflowRank then .finite negative ⟨rank, h⟩ else .infinity negative

/-- The double nearest to the fraction `num / den`. -/
def ofFraction (num den : Nat) : Double := ofUnits false (num * unitsPerOne) den

end Double

end Reckoner
