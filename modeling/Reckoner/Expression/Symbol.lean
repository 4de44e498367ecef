import Reckoner.Double.Arithmetic

/-!
# The symbols of expressions

Signs, binary operators and the two functions: how each is written and what it does to numbers.
-/

namespace Reckoner

/-- A sign in front of an operand. -/
inductive Sign where
  | positive
  | negative
deriving DecidableEq, Repr

namespace Sign

def symbol : Sign → Char
  | .positive => '+'
  | .negative => '-'

/-- The sign that a character writes. -/
def ofSymbol? (c : Char) : Option Sign :=
  if c = '+' then some .positive
  else if c = '-' then some .negative
  else none

def apply : Sign → Double → Double
  | .positive, x => x
  | .negative, x => -x

end Sign

/-- The two levels of binary operators; the multiplicative ones bind tighter. -/
inductive Level where
  | multiplicative
  | additive
deriving DecidableEq, Repr

/-- An operator between two operands. -/
inductive Operator where
  | addition
  | subtraction
  | multiplication
  | division
deriving DecidableEq, Repr

namespace Operator

def symbol : Operator → Char
  | .addition => '+'
  | .subtraction => '-'
  | .multiplication => '*'
  | .division => '/'

def level : Operator → Level
  | .addition | .subtraction => .additive
  | .multiplication | .division => .multiplicative

def apply : Operator → Double → Double → Double
  | .addition, x, y => x + y
  | .subtraction, x, y => x - y
  | .multiplication, x, y => x * y
  | .division, x, y => x / y

end Operator

/-- The operator of a level that a character writes. -/
def Level.operator? : Level → Char → Option Operator
  | .additive, c =>
    if c = '+' then some .addition
    else if c = '-' then some .subtraction
    else none
  | .multiplicative, c =>
    if c = '*' then some .multiplication
    else if c = '/' then some .division
    else none

theorem Level.operator?_eq_some_iff {level : Level} {c : Char} {operator : Operator} :
    level.operator? c = some operator ↔ operator.level = level ∧ operator.symbol = c := by
  cases level <;> cases operator <;>
    simp only [Level.operator?, Operator.level, Operator.symbol] <;> grind

/-- A function that is applied by name. -/
inductive Builtin where
  | power
  | floor
deriving DecidableEq, Repr

namespace Builtin

/-- The name under which a function is called. -/
def name : Builtin → List Char
  | .power => "Math.pow".toList
  | .floor => "Math.floor".toList

/-- All functions. -/
def all : List Builtin := [.power, .floor]

/-- The function of a name. -/
def ofName? (name : List Char) : Option Builtin := all.find? (·.name == name)

/-- The function whose name begins the text, and the text behind the name. -/
def leading? (s : List Char) : Option (Builtin × List Char) :=
  all.findSome? fun function => (function.name.isPrefixOf? s).map (function, ·)

end Builtin

end Reckoner
