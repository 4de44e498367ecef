import Reckoner.Dialogue.Response

/-!
# The command line

Three options choose the settings of a dialogue, each with an environment variable that stands in
for it. Arguments are looked at from left to right and the first that is out of order decides. A
value is either attached to its option or is the next argument, which then must not look like an
option.
-/

namespace Reckoner

/-- A setting that can be chosen. -/
inductive Choice where
  | language
  | maxOperators
  | maxDepth
deriving DecidableEq, Repr

namespace Choice

/-- All choices. -/
def all : List Choice := [.language, .maxOperators, .maxDepth]

/-- The name of the option, without the two dashes. -/
def longName : Choice → List Char
  | .language => "language".toList
  | .maxOperators => "max-operators".toList
  | .maxDepth => "max-depth".toList

/-- The environment variable that is used where the option is not given. -/
def variableName : Choice → String
  | .language => "LINECALC_LANGUAGE"
  | .maxOperators => "LINECALC_MAX_OPERATORS"
  | .maxDepth => "LINECALC_MAX_DEPTH"

/-- The choice of an option's name. -/
def ofLongName? (name : List Char) : Option Choice := all.find? (·.longName == name)

end Choice

/-- The bound on sizes: they fit in sixty-four bits. -/
def sizeBound : Nat := UInt64.size

/-- A size: ASCII digits, perhaps behind a plus, that write a number below the bound. -/
def readSize? (text : List Char) : Option Nat :=
  let digits := match text with
    | '+' :: rest => rest
    | _ => text
  let size := Nat.ofDigitChars 10 digits 0
  if digits ≠ [] ∧ digits.all Char.isDigit ∧ size < sizeBound then some size else none

/-- The settings that have been chosen so far. -/
structure Chosen where
  language? : Option Language := none
  maxOperators? : Option Nat := none
  maxDepth? : Option Nat := none
deriving DecidableEq, Repr

namespace Chosen

/-- Whether a choice has been made. -/
def has (chosen : Chosen) : Choice → Bool
  | .language => chosen.language?.isSome
  | .maxOperators => chosen.maxOperators?.isSome
  | .maxDepth => chosen.maxDepth?.isSome

/-- Makes a choice, if the value is one for it. -/
def set? (chosen : Chosen) (choice : Choice) (value : List Char) : Option Chosen :=
  match choice with
  | .language =>
    (Language.ofName? (String.ofList value)).map fun l => { chosen with language? := some l }
  | .maxOperators => (readSize? value).map fun n => { chosen with maxOperators? := some n }
  | .maxDepth => (readSize? value).map fun n => { chosen with maxDepth? := some n }

/-- Makes a choice for the first time. Making it once more is refused. -/
def add? (chosen : Chosen) (choice : Choice) (value : List Char) : Option Chosen :=
  if chosen.has choice then none else chosen.set? choice value

end Chosen

/-- How one argument looks. -/
inductive Argument where
  /-- Two dashes: no options follow. -/
  | terminator
  /-- Two dashes and a name, perhaps with a value behind an equals sign. -/
  | long (name : List Char) (value? : Option (List Char))
  /-- One dash and a letter, with what is attached to it. -/
  | short (letter : Char) (attached : List Char)
  /-- Anything else, a single dash included. -/
  | plain (text : List Char)
deriving DecidableEq, Repr

/-- The look of an argument. -/
def Argument.ofText : List Char → Argument
  | ['-', '-'] => .terminator
  | '-' :: '-' :: body =>
    .long (body.takeWhile (· != '='))
      (match body.dropWhile (· != '=') with
      | [] => none
      | _ :: value => some value)
  | '-' :: letter :: attached => .short letter attached
  | text => .plain text

/-- One thing that the arguments ask for. -/
inductive Directive where
  | choose (choice : Choice) (value : List Char)
  | version
  | help
  /-- An argument that has no place there. -/
  | misuse
deriving DecidableEq, Repr

/-- What an argument means by itself. -/
inductive Meaning where
  | complete (directive : Directive)
  /-- The next argument is the value. -/
  | awaiting (choice : Choice)
  /-- Nothing may follow. -/
  | last
deriving DecidableEq, Repr

namespace Argument

/-- The meaning of an option for a choice, whose value may be attached. -/
def optionFor (choice : Choice) : Option (List Char) → Meaning
  | some value => .complete (.choose choice value)
  | none => .awaiting choice

/-- The value attached to a short option, if there is one; an equals sign in front of it is
dropped. -/
def attachedValue? : List Char → Option (List Char)
  | [] => none
  | '=' :: value => some value
  | value => some value

/-- What an argument means by itself. Only the options for choices take a value. -/
def meaning : Argument → Meaning
  | .terminator => .last
  | .plain _ => .complete .misuse
  | .long name value? =>
    if name = "version".toList then .complete (if value? = none then .version else .misuse)
    else if name = "help".toList then .complete (if value? = none then .help else .misuse)
    else match Choice.ofLongName? name with
      | some choice => optionFor choice value?
      | none => .complete .misuse
  | .short letter attached =>
    if letter = 'V' then .complete .version
    else if letter = 'h' then .complete .help
    else if letter = 'l' then optionFor .language (attachedValue? attached)
    else .complete .misuse

end Argument

/-- The directives of a list of arguments, from left to right. -/
def Directive.ofArguments : List (List Char) → List Directive
  | [] => []
  | argument :: more =>
    match (Argument.ofText argument).meaning with
    | .complete directive => directive :: ofArguments more
    | .last => if more = [] then [] else [.misuse]
    | .awaiting choice =>
      match more with
      | [] => [.misuse]
      | next :: others =>
        match Argument.ofText next with
        | .plain value => .choose choice value :: ofArguments others
        | _ => [.misuse]

/-- What the program is to do. -/
inductive Request where
  | converse (chosen : Chosen)
  | version
  | help
deriving DecidableEq, Repr

namespace Request

/-- What the directives ask for when some choices have been made before them; nothing if they are
used wrongly. The first directive that settles the matter does so. -/
def ofDirectives? (chosen : Chosen) : List Directive → Option Request
  | [] => some (.converse chosen)
  | .choose choice value :: more =>
    match chosen.add? choice value with
    | some chosen => ofDirectives? chosen more
    | none => none
  | .version :: _ => some .version
  | .help :: _ => some .help
  | .misuse :: _ => none

/-- What a list of arguments asks for. -/
def ofArguments? (arguments : List (List Char)) : Option Request :=
  ofDirectives? {} (Directive.ofArguments arguments)

end Request

/-- The value of an environment variable, if it is set. What is not Unicode in it stands as the
replacement character, which no value of a choice has in it. -/
abbrev Environment := String → Option String

namespace Chosen

/-- Makes a choice by its environment variable, if it has not been made and the variable is set. -/
def fromEnvironment? (environment : Environment) (chosen : Chosen) (choice : Choice) :
    Option Chosen :=
  if chosen.has choice then some chosen
  else match environment choice.variableName with
    | none => some chosen
    | some value => chosen.set? choice value.toList

/-- The settings, with the defaults for what has not been chosen. -/
def settings (chosen : Chosen) : Settings :=
  { language := chosen.language?.getD .english
    maxOperators := chosen.maxOperators?.getD defaultMaxOperators
    maxDepth := chosen.maxDepth?.getD defaultMaxDepth }

/-- The settings that follow from the choices made and the environment; nothing if a variable that
is needed holds no value for its choice. -/
def resolve? (environment : Environment) (chosen : Chosen) : Option Settings :=
  (Choice.all.foldlM (fromEnvironment? environment) chosen).map settings

end Chosen

end Reckoner
