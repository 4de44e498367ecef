/-!
# Why a line has no value

`Fault` has one constructor for each way in which a line can be refused; the wording is in
`Fault.message` alone.
-/

namespace Reckoner

/-- A reason to refuse an expression. -/
inductive Fault where
  /-- No operand begins with this character. -/
  | unexpectedCharacter (c : Char)
  /-- A run of digits and dots is no numeral. -/
  | invalidNumber (run : List Char)
  /-- A word that names no function has been applied. -/
  | unknownFunction (word : List Char)
  /-- A character stands behind a complete expression. -/
  | trailingInput (c : Char)
  /-- An operand is missing at the end. -/
  | abruptEnd
  /-- Operands nest deeper than the limit. -/
  | nestingTooDeep (limit : Nat)
  /-- The line does not have the shape of an expression. -/
  | malformedExpression
  /-- The line has more operators than the limit. -/
  | tooManyOperators (limit : Nat)
deriving DecidableEq, Repr

namespace Fault

/-- The text shown for a fault. Characters and words of the line are inserted as they are. -/
def message : Fault → List Char
  | .unexpectedCharacter c => "unexpected character, '".toList ++ c :: "', encountered".toList
  | .invalidNumber run => '\'' :: run ++ "' is not a valid number".toList
  | .unknownFunction word => "unknown function: ".toList ++ word
  | .trailingInput c => "did not expect '".toList ++ c :: "' after the expression".toList
  | .abruptEnd => "expression ended abruptly".toList
  | .nestingTooDeep limit =>
    "expression is nested deeper than ".toList ++ Nat.toDigits 10 limit ++ " levels".toList
  | .malformedExpression => "expression must start with a number and end with a digit".toList
  | .tooManyOperators limit =>
    "expression has more than ".toList ++ Nat.toDigits 10 limit ++ " operators".toList

end Fault

end Reckoner
