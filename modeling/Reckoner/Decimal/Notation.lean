import Reckoner.Decimal.Shortest

/-!
# How results are written

A result is written with its shortest decimal. Magnitudes from one thousandth up to, and not
including, ten million are written positionally, all others as one digit, a fraction and an
exponent. There is always a dot with at least one digit behind it, and the sign is written whenever
the sign bit is set, also for zero.
-/

namespace Reckoner

/-- A positive decimal: its significant digits, and the power of ten of the first of them. -/
structure Decimal where
  digits : List Char
  exponent : Int
deriving DecidableEq, Repr

namespace Decimal

/-- Digits without the zeros at their end. -/
def dropTrailingZeros (digits : List Char) : List Char :=
  (digits.reverse.dropWhile (· == '0')).reverse

/-- The shortest decimal of a positive magnitude. -/
def ofMagnitude (m : Magnitude) : Decimal :=
  let digits := Nat.toDigits 10 (Shortest.steps m.rank)
  { digits := dropTrailingZeros digits, exponent := (digits.length : Int) - 1 - 1074 }

/-- A dot and the digits behind it; a zero stands where there are none. -/
def fraction : List Char → List Char
  | [] => ['.', '0']
  | digits => '.' :: digits

/-- A whole number with its sign, if that is a minus. -/
def integer (z : Int) : List Char :=
  if z < 0 then '-' :: Nat.toDigits 10 z.natAbs else Nat.toDigits 10 z.natAbs

/-- Positional notation. -/
def positional (d : Decimal) : List Char :=
  if 0 ≤ d.exponent then
    let whole := d.exponent.toNat + 1
    (d.digits.take whole).rightpad whole '0' ++ fraction (d.digits.drop whole)
  else
    '0' :: fraction (List.replicate (-d.exponent - 1).toNat '0' ++ d.digits)

/-- Scientific notation: one digit, a fraction, and the power of ten. -/
def scientific (d : Decimal) : List Char :=
  d.digits.take 1 ++ fraction (d.digits.drop 1) ++ 'E' :: integer d.exponent

end Decimal

namespace Magnitude

/-- Whether a magnitude is written positionally: from `0.001` up to, and not including,
`10000000`. -/
def isPositional (m : Magnitude) : Bool :=
  nearestRank unitsPerOne 1000 ≤ m.rank && m.rank < nearestRank (10000000 * unitsPerOne) 1

/-- The text of a magnitude. -/
def text (m : Magnitude) : List Char :=
  if m.isZero then ['0', '.', '0']
  else if m.isPositional then (Decimal.ofMagnitude m).positional
  else (Decimal.ofMagnitude m).scientific

end Magnitude

/-- The text of a result. -/
def Double.text : Double → List Char
  | .nan => "NaN".toList
  | .infinity negative => (if negative then "-Infinity" else "Infinity").toList
  | .finite negative m => if negative then '-' :: m.text else m.text

end Reckoner
