import Reckoner.Expression.Reader
import Reckoner.Shorthand.Expansion

/-!
# Evaluation

A line is evaluated by writing out its shorthand, reading the result, and computing the value of the
tree.
-/

namespace Reckoner

/-- How deeply factors may nest unless something else is asked for. -/
def defaultMaxDepth : Nat := 256

/-- The value of an expression as it is read, without shorthand. -/
def readValue (maxDepth : Nat) (s : List Char) : Except Fault Double :=
  (Expression.read maxDepth s).map Expression.value

/-- The value of a line that may use shorthand. -/
def evaluate (maxDepth : Nat) (s : List Char) : Except Fault Double :=
  readValue maxDepth (Shorthand.expand s)

/-- The value of a line under the default limit. -/
def calculate (s : List Char) : Except Fault Double := evaluate defaultMaxDepth s

end Reckoner
