import Reckoner.CommandLine.Program

/-!
# The interactive program

Carries a dialogue out on standard input and output, one turn at a time.
-/

namespace Reckoner

/-- Reads up to and including the next line feed, or to the end of the input. The line feed is left
out; there is no line where nothing was read. -/
partial def readLine? (input : IO.FS.Stream) (line : Array UInt8) (begun : Bool) :
    IO (Option RawLine) := do
  let bytes ← input.read 1
  match bytes.toList with
  | [] => return if begun then some line.toList else none
  | byte :: _ =>
    if byte = RawLine.lineFeed then return some line.toList
    else readLine? input (line.push byte) true

/-- Takes turns until the dialogue ends. -/
partial def takeTurns (settings : Settings) (input output : IO.FS.Stream) : IO Ending := do
  output.putStr settings.language.phrases.prompt
  output.flush
  match ← readLine? input #[] false with
  | none => return .finished
  | some line =>
    match settings.turn line with
    | .stop ending => return ending
    | .answer text =>
      output.putStr (String.ofList text)
      takeTurns settings input output

/-- The values of the variables that stand in for options. -/
def readEnvironment : IO Environment := do
  let values ← Choice.all.mapM fun choice => do
    return (choice.variableName, ← IO.getEnv choice.variableName)
  return fun name => (values.lookup name).join

/-- Prints what an outcome has to print. -/
def deliver (outcome : Outcome) : IO UInt32 := do
  (← IO.getStdout).write ⟨outcome.stdout.toArray⟩
  IO.eprint outcome.stderr
  return .ofNat outcome.exitCode

end Reckoner

open Reckoner in
def main (arguments : List String) : IO UInt32 := do
  match Plan.ofArguments (arguments.map String.toList) (← readEnvironment) with
  | .report outcome => deliver outcome
  | .converse settings =>
    let failure? ← try
        pure (← takeTurns settings (← IO.getStdin) (← IO.getStdout)).message?
      catch error => pure (some (toString error))
    -- the turns have been printed as they were taken
    deliver (.ofDialogue [] failure?)
