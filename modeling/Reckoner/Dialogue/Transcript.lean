import Reckoner.Dialogue.Response

/-!
# Dialogues

A dialogue goes in turns: the prompt is written, a line is read, and its answer is written. It ends
at the exit word, at the end of the input, at a line that is not text, or when the output takes no
more. `Settings.converse` gives everything that was written, and how it ended, for a whole input and
an output that may be limited.
-/

namespace Reckoner

/-- How a dialogue ended. -/
inductive Ending where
  /-- At the exit word or at the end of the input. -/
  | finished
  /-- At a line that is not valid UTF-8. -/
  | invalidData
  /-- At the limit of the output. -/
  | writeZero
deriving DecidableEq, Repr

/-- The message about an ending that is a failure. -/
def Ending.message? : Ending → Option String
  | .finished => none
  | .invalidData => some "stream did not contain valid UTF-8"
  | .writeZero => some "failed to write whole buffer"

/-- What a dialogue wrote, and how it ended. -/
structure Transcript where
  output : List UInt8
  ending : Ending
deriving DecidableEq, Repr

/-- What the output still takes: any number of bytes, or a given one. -/
abbrev Capacity := Option Nat

/-- Writes a text and goes on with the capacity that is left. A text that does not fit is written as
far as it does, and nothing follows it. -/
def emit (capacity : Capacity) (text : List Char) (next : Capacity → Transcript) : Transcript :=
  let bytes := utf8 text
  match capacity with
  | none =>
    let following := next none
    { following with output := bytes ++ following.output }
  | some room =>
    if bytes.length ≤ room then
      let following := next (some (room - bytes.length))
      { following with output := bytes ++ following.output }
    else { output := bytes.take room, ending := .writeZero }

/-- What follows from a line that has been read. -/
inductive Turn where
  /-- The answer is written and the dialogue goes on. -/
  | answer (text : List Char)
  /-- The dialogue ends. -/
  | stop (ending : Ending)
deriving DecidableEq, Repr

namespace Settings

/-- The turn that a line brings. An answer is a line of its own. -/
def turn (settings : Settings) (line : RawLine) : Turn :=
  match line.text? with
  | none => .stop .invalidData
  | some text =>
    match settings.respond text with
    | none => .stop .finished
    | some answer => .answer (answer ++ ['\n'])

/-- The dialogue over the given lines. -/
def converseLines (settings : Settings) : Capacity → List RawLine → Transcript
  | capacity, [] =>
    emit capacity settings.language.phrases.prompt.toList fun _ =>
      { output := [], ending := .finished }
  | capacity, line :: more =>
    emit capacity settings.language.phrases.prompt.toList fun capacity =>
      match settings.turn line with
      | .stop ending => { output := [], ending }
      | .answer text =>
        emit capacity text fun capacity => settings.converseLines capacity more

/-- The dialogue over a whole input. -/
def converse (settings : Settings) (capacity : Capacity) (input : List UInt8) : Transcript :=
  settings.converseLines capacity (RawLine.split input)

end Settings

end Reckoner
