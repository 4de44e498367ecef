/-!
# Double-precision numbers

`Double` is the set of binary64 numbers with a single NaN. A finite number is a sign and a
`Magnitude`, and a magnitude is known by its *rank*: its place in the increasing order of all finite
magnitudes, which is also its pattern of exponent and fraction bits.

Every magnitude is a whole number of *units* of `2 ^ -1074`, the least positive magnitude. Exact
arithmetic on doubles is therefore arithmetic on naturals and integers; what remains is to go back
from an exact result to a rank, which is `nearestRank` in `Reckoner.Double.Rounding`.
-/

namespace Reckoner

/-- The number of units in one. -/
def unitsPerOne : Nat := Nat.pow 2 1074

/-- The number of magnitudes from one power of two up to the next: one for each pattern of the
fifty-two fraction bits. -/
def ranksPerBinade : Nat := Nat.pow 2 52

/-- How often the spacing of magnitudes has doubled below this rank: magnitudes of this rank are
multiples of `2 ^ binade rank` units. The subnormal magnitudes and the first normal ones share the
spacing of one unit. -/
def binade (rank : Nat) : Nat := rank / ranksPerBinade - 1

/-- The magnitude of this rank, in units. The spacing grows with the rank, so this is a strictly
increasing function. -/
def unitsOfRank (rank : Nat) : Nat :=
  (rank - binade rank * ranksPerBinade) * Nat.pow 2 (binade rank)

/-- The rank behind the last finite magnitude. It belongs to `2 ^ 1024`, where overflow begins, and
its bits are those of infinity. -/
def overflowRank : Nat := 2047 * ranksPerBinade

/-- A finite magnitude, given by its rank. -/
structure Magnitude where
  rank : Nat
  rank_lt : rank < overflowRank
deriving DecidableEq, Repr

namespace Magnitude

/-- The least magnitude. -/
def zero : Magnitude := ⟨0, by decide⟩

/-- The exact value, in units. -/
def units (m : Magnitude) : Nat := unitsOfRank m.rank

/-- Whether the magnitude is the least one. -/
def isZero (m : Magnitude) : Bool := m.rank == 0

end Magnitude

/-- A double-precision number. The sign of zero counts, and all undefined results are one `nan`. -/
inductive Double where
  | nan
  | infinity (negative : Bool)
  | finite (negative : Bool) (magnitude : Magnitude)
deriving DecidableEq, Repr

namespace Double

/-- Zero of the given sign. -/
def zero (negative : Bool) : Double := .finite negative .zero

/-- The weight of the sign bit. -/
def signBit (negative : Bool) : Nat := if negative then Nat.pow 2 63 else 0

/-- The interchange pattern: sign bit, eleven exponent bits, fifty-two fraction bits. -/
def toBits : Double → UInt64
  | .nan => 0x7FF8000000000000
  | .infinity negative => .ofNat (signBit negative + overflowRank)
  | .finite negative m => .ofNat (signBit negative + m.rank)

/-- Reads an interchange pattern. Every pattern above infinity's, of either sign, is `nan`. -/
def ofBits (pattern : UInt64) : Double :=
  let negative := decide (Nat.pow 2 63 ≤ pattern.toNat)
  let rank := pattern.toNat % Nat.pow 2 63
  if h : rank < overflowRank then .finite negative ⟨rank, h⟩
  else if rank = overflowRank then .infinity negative
  else .nan

end Double

end Reckoner
