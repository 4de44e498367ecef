/-!
# Languages

The words that a dialogue uses, in each of its languages. Messages about faults are not among them:
they are the same in all languages.
-/

namespace Reckoner

/-- A language in which a dialogue can be held. -/
inductive Language where
  | english
  | russian
deriving DecidableEq, Repr

/-- The words of a dialogue. -/
structure Phrases where
  /-- Asks for the next line. -/
  prompt : String
  /-- Stands in front of a value. -/
  result : String
  /-- Stands in front of the message about a fault. -/
  error : String
  /-- Answers a line that is not looked at further. -/
  invalid : String
  /-- Ends the dialogue, in any mixture of small letters and capitals. -/
  exitWord : String
deriving DecidableEq, Repr

namespace Language

/-- The words of a language. -/
def phrases : Language → Phrases
  | .english =>
    { prompt := "Enter a math expression: "
      result := "Result"
      error := "Error"
      invalid := "Invalid expression"
      exitWord := "exit" }
  | .russian =>
    { prompt := "Введите математическое выражение: "
      result := "Результат"
      error := "Ошибка"
      invalid := "Некорректное выражение"
      exitWord := "выход" }

/-- The name by which a language is chosen. -/
def name : Language → String
  | .english => "english"
  | .russian => "russian"

/-- The language of a name. -/
def ofName? (name : String) : Option Language :=
  [Language.english, .russian].find? (·.name == name)

end Language

end Reckoner
