import Reckoner.CommandLine.Options
import Reckoner.Dialogue.Transcript

/-!
# The program as a whole

What a run of the program prints and how it exits, as a function of its arguments, environment and
standard input.
-/

namespace Reckoner

/-- What a run leaves behind. -/
structure Outcome where
  exitCode : Nat
  stdout : List UInt8
  stderr : String
deriving DecidableEq, Repr

namespace Outcome

/-- What is printed when the version is asked for. -/
def versionText : String := "linecalc 0.1.0\n"

/-- What is printed when help is asked for. The words are a stand-in for those that a library for
command lines would make up from the options. -/
def helpText : String :=
  "Reads arithmetic expressions line by line and prints their values\n\n" ++
  "Usage: linecalc [OPTIONS]\n\n" ++
  "Options:\n" ++
  "  -l, --language <LANGUAGE>            Language of the prompts and of the exit keyword\n" ++
  "      --max-operators <MAX_OPERATORS>  Lines with more operators than this are rejected\n" ++
  "      --max-depth <MAX_DEPTH>          How deeply factors may nest before " ++
    "evaluation gives up\n" ++
  "  -h, --help                           Print help\n" ++
  "  -V, --version                        Print version\n"

/-- What is printed about a command line that is used wrongly: a stand-in, since such a library
would say what is wrong with it. -/
def usageText : String :=
  "error: invalid command line\n\nFor more information, try '--help'.\n"

/-- The outcome of printing a text and nothing else. -/
def printing (text : String) : Outcome :=
  { exitCode := 0, stdout := utf8 text.toList, stderr := "" }

/-- The outcome of a command line that is used wrongly. -/
def misuse : Outcome := { exitCode := 2, stdout := [], stderr := usageText }

/-- How a failure of the dialogue is reported. -/
def failureText (message : String) : String := "Error, " ++ message ++ "\n"

/-- The outcome of a dialogue that wrote the output: a failure is reported and exits with one. -/
def ofDialogue (output : List UInt8) (failure? : Option String) : Outcome :=
  match failure? with
  | none => { exitCode := 0, stdout := output, stderr := "" }
  | some message => { exitCode := 1, stdout := output, stderr := failureText message }

def ofTranscript (transcript : Transcript) : Outcome :=
  ofDialogue transcript.output transcript.ending.message?

end Outcome

/-- What is left to do when the arguments and the environment have been read. -/
inductive Plan where
  /-- Nothing but to print something and to exit. -/
  | report (outcome : Outcome)
  | converse (settings : Settings)
deriving DecidableEq, Repr

def Plan.ofArguments (arguments : List (List Char)) (environment : Environment) : Plan :=
  match Request.ofArguments? arguments with
  | none => .report .misuse
  | some .version => .report (.printing Outcome.versionText)
  | some .help => .report (.printing Outcome.helpText)
  | some (.converse chosen) =>
    match chosen.resolve? environment with
    | none => .report .misuse
    | some settings => .converse settings

/-- The outcome of a run. -/
def Outcome.ofRun (arguments : List (List Char)) (environment : Environment)
    (stdin : List UInt8) : Outcome :=
  match Plan.ofArguments arguments environment with
  | .report outcome => outcome
  | .converse settings => ofTranscript (settings.converse none stdin)

end Reckoner
