import Reckoner.Double.Rounding

/-!
# The shortest decimal of a magnitude

A decimal reads back as a magnitude when rounding it to the nearest double gives that magnitude.
`Shortest.steps` chooses, among the decimals that read back, one with the fewest significant
digits, and among those the one nearest to the exact value; of two equally near it takes the upper.

All decimals here are whole numbers of *steps* of `10 ^ -1074`. One unit, `2 ^ -1074`, is `5 ^ 1074`
steps, so every magnitude is a whole number of steps and a decimal with few digits is a multiple of
a large power of ten. The search begins with the coarsest grid and ends, at the latest, with the
exact value itself.
-/

namespace Reckoner.Shortest

/-- The number of steps of `10 ^ -1074` in one unit. -/
def stepsPerUnit : Nat := Nat.pow 5 1074

/-- The exact value of the magnitude of a rank, in steps. -/
def exactSteps (rank : Nat) : Nat := unitsOfRank rank * stepsPerUnit

/-- Whether the decimal of so many steps is rounded to the magnitude of the rank. -/
def readsBack (rank steps : Nat) : Bool := nearestRank steps stepsPerUnit == rank

/-- The multiple of `grid` that reads back and is nearest to the exact value. Only the two
neighbours of the exact value need a look: what lies beyond them reads back only if they do. -/
def onGrid? (rank grid : Nat) : Option Nat :=
  let below := exactSteps rank / grid * grid
  let above := below + grid
  if readsBack rank below && (!readsBack rank above || 2 * (exactSteps rank - below) < grid) then
    some below
  else if readsBack rank above then some above
  else none

/-- The choice on the coarsest grid `10 ^ k` that has one, from the given `k` downward. -/
def search (rank : Nat) : Nat → Nat
  | 0 => exactSteps rank
  | k + 1 => (onGrid? rank (Nat.pow 10 (k + 1))).getD (search rank k)

/-- The shortest decimal of a rank, in steps. The first grid is that of the leading digit. -/
def steps (rank : Nat) : Nat :=
  search rank ((Nat.toDigits 10 (exactSteps rank)).length - 1)

end Reckoner.Shortest
