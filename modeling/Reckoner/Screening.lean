import Reckoner.Fault

/-!
# Screening of lines

A line is looked at before it is read: it has to begin and end like an expression, and it must not
have too many operators.
-/

namespace Reckoner

/-- Whether a line has the shape of an expression: an optional minus, a digit, any characters except
line feeds, and a last digit that is not the first one. -/
def isWellShaped (s : List Char) : Bool :=
  let unsigned := match s with
    | '-' :: rest => rest
    | _ => s
  match unsigned with
  | [] => false
  | first :: rest =>
    first.isDigit && rest.all (· != '\n') && rest.getLast?.any Char.isDigit

/-- The characters that count as operators, wherever they stand. -/
def isOperatorSymbol (c : Char) : Bool :=
  c == '-' || c == '+' || c == '*' || c == '/' || c == '^'

/-- The number of operators of a line. A double slash counts twice. -/
def countOperators (s : List Char) : Nat := s.countP isOperatorSymbol

/-- Refuses a line that is not shaped like an expression or has more than `maxOperators` operators;
the shape is looked at first. -/
def screen (maxOperators : Nat) (s : List Char) : Except Fault Unit :=
  if !isWellShaped s then .error .malformedExpression
  else if maxOperators < countOperators s then .error (.tooManyOperators maxOperators)
  else .ok ()

end Reckoner
