import Reckoner.Double.Rounding

/-!
# Arithmetic on doubles

Each operation is its exact result, rounded once. The special values follow the usual rules: what
has no value is `nan`, a non-zero number over zero is infinite, and an exact sum of zero is negative
only if both operands are.
-/

namespace Reckoner.Double

/-- The exact value of a finite number, in units. -/
def signedUnits (negative : Bool) (m : Magnitude) : Int :=
  if negative then -(m.units : Int) else m.units

protected def neg : Double → Double
  | .nan => .nan
  | .infinity negative => .infinity !negative
  | .finite negative m => .finite (!negative) m

instance : Neg Double where
  neg := Double.neg

protected def add : Double → Double → Double
  | .nan, _ => .nan
  | _, .nan => .nan
  | .infinity s, .infinity t => if s = t then .infinity s else .nan
  | .infinity s, .finite _ _ => .infinity s
  | .finite _ _, .infinity t => .infinity t
  | .finite s a, .finite t b =>
    let sum := signedUnits s a + signedUnits t b
    if sum = 0 then zero (s && t) else ofUnits (sum < 0) sum.natAbs 1

instance : Add Double where
  add := Double.add

/-- A difference is the sum with the opposite number. -/
protected def sub (a b : Double) : Double := a + -b

instance : Sub Double where
  sub := Double.sub

protected def mul : Double → Double → Double
  | .nan, _ => .nan
  | _, .nan => .nan
  | .infinity s, .infinity t => .infinity (s != t)
  | .infinity s, .finite t b => if b.isZero then .nan else .infinity (s != t)
  | .finite s a, .infinity t => if a.isZero then .nan else .infinity (s != t)
  | .finite s a, .finite t b => ofUnits (s != t) (a.units * b.units) unitsPerOne

instance : Mul Double where
  mul := Double.mul

protected def div : Double → Double → Double
  | .nan, _ => .nan
  | _, .nan => .nan
  | .infinity _, .infinity _ => .nan
  | .infinity s, .finite t _ => .infinity (s != t)
  | .finite s _, .infinity t => zero (s != t)
  | .finite s a, .finite t b =>
    if b.isZero then
      if a.isZero then .nan else .infinity (s != t)
    else ofUnits (s != t) (a.units * unitsPerOne) b.units

instance : Div Double where
  div := Double.div

/-- The greatest whole number that is at most the given one. It keeps the sign, so a zero stays the
zero it is and a proper fraction becomes the zero or the minus one below it. -/
def floor : Double → Double
  | .finite negative m =>
    let whole := if negative then (m.units + (unitsPerOne - 1)) / unitsPerOne
      else m.units / unitsPerOne
    ofUnits negative (whole * unitsPerOne) 1
  | x => x

/-- The first number raised to the second, as the machine's mathematical library rounds it. This is
the one operation that is not computed here. -/
def pow (base exponent : Double) : Double :=
  .ofBits (Float.pow (.ofBits base.toBits) (.ofBits exponent.toBits)).toBits

end Reckoner.Double
