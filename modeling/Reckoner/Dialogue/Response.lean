import Reckoner.Decimal.Notation
import Reckoner.Dialogue.Language
import Reckoner.Evaluation
import Reckoner.Screening
import Reckoner.Text.LowerCase
import Reckoner.Text.Lines

/-!
# Answers to lines

Each line is answered by itself: what came before has no influence. The exit word ends the dialogue;
a line that does not pass the screening is called invalid without a reason; every other line is
answered with its value or with the fault that evaluation found.
-/

namespace Reckoner

/-- How many operators a line may have unless something else is asked for. -/
def defaultMaxOperators : Nat := 99

/-- The choices that hold for a whole dialogue. -/
structure Settings where
  language : Language := .english
  maxOperators : Nat := defaultMaxOperators
  maxDepth : Nat := defaultMaxDepth
deriving DecidableEq, Repr

namespace Settings

/-- Whether a line is the exit word, small letters and capitals being the same. -/
def isExit (settings : Settings) (line : List Char) : Bool :=
  lowerCaseText line == lowerCaseText settings.language.phrases.exitWord.toList

/-- The answer to a line that does not end the dialogue. -/
def answer (settings : Settings) (line : List Char) : List Char :=
  let phrases := settings.language.phrases
  match screen settings.maxOperators line with
  | .error _ => phrases.invalid.toList
  | .ok () =>
    match evaluate settings.maxDepth line with
    | .ok value => phrases.result.toList ++ ": ".toList ++ value.text
    | .error fault => phrases.error.toList ++ ": ".toList ++ fault.message

/-- The answer to a line, or nothing if the line ends the dialogue. -/
def respond (settings : Settings) (line : List Char) : Option (List Char) :=
  if settings.isExit line then none else some (settings.answer line)

end Settings

end Reckoner
