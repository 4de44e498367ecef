import Reckoner.Decimal.Numeral
import Reckoner.Expression.Symbol

/-!
# Expressions

An `Expression` is the tree that a text stands for. Parentheses have served their purpose once the
tree is built, so it holds none; numbers are kept as they were typed. The value of a tree is
computed from the leaves up, one rounded operation for each node.
-/

namespace Reckoner

/-- An arithmetic expression. -/
inductive Expression where
  | literal (numeral : Numeral)
  | signed (sign : Sign) (operand : Expression)
  | binary (operator : Operator) (left right : Expression)
  | floor (argument : Expression)
  | power (base exponent : Expression)
deriving DecidableEq

namespace Expression

/-- The value of an expression. -/
def value : Expression → Double
  | .literal numeral => numeral.value
  | .signed sign operand => sign.apply operand.value
  | .binary operator left right => operator.apply left.value right.value
  | .floor argument => argument.value.floor
  | .power base exponent => base.value.pow exponent.value

end Expression

end Reckoner
