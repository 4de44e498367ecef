import Reckoner.Text.ByteCursor

/-!
# A cursor on a text

`Cursor text` is a place between two characters of a text, for readers that report where they stand.
It keeps a byte offset and the character that begins there, and its type says that the two belong to
the text, so its steps are total: a `ByteCursor` that fits its text never fails to slice it.

The expression reader works on the list of remaining characters instead; `Step.onList` is what a
step does there.
-/

namespace Reckoner

/-- The steps of a cursor. -/
inductive Step where
  /-- Passes over one character. -/
  | advance
  /-- Passes over spaces, and over a character if it follows them. -/
  | accept (expected : Char)
  /-- Passes over a word if it follows. -/
  | acceptWord (word : List Char)
  /-- Takes the longest run of accepted characters. -/
  | takeRun (accepts : Char → Bool)

namespace Step

/-- What a step answers. -/
abbrev Answer : Step → Type
  | .advance => Unit
  | .accept _ | .acceptWord _ => Bool
  | .takeRun _ => List Char

/-- A step on the characters that remain. -/
def onList : (step : Step) → List Char → step.Answer × List Char
  | .advance, s => ((), s.tail)
  | .accept expected, s =>
    match accept? expected s with
    | some rest => (true, rest)
    | none => (false, skipSpaces s)
  | .acceptWord word, s => if word.isPrefixOf s then (true, s.drop word.length) else (false, s)
  | .takeRun accepts, s => (s.takeWhile accepts, s.dropWhile accepts)

end Step

namespace ByteCursor

variable {text : String} {c : ByteCursor} {s : List Char}

/-- A step of what a cursor keeps. -/
def step? (text : String) : (step : Step) → ByteCursor → Option (step.Answer × ByteCursor)
  | .advance, c => (c.advance? text).map ((), ·)
  | .accept expected, c => c.accept? text expected
  | .acceptWord word, c => c.acceptWord? text word
  | .takeRun accepts, c => c.takeRun? text accepts

/-- In front of its remaining characters a cursor answers as they do, and stands in front of what
they leave. -/
theorem Fits.step? (step : Step) (h : Fits text c s) :
    ∃ next, c.step? text step = some ((step.onList s).1, next) ∧
      Fits text next (step.onList s).2 := by
  cases step with
  | advance =>
    obtain ⟨next, advanced, fits⟩ := h.advance?
    exact ⟨next, by rw [ByteCursor.step?, advanced]; rfl, fits⟩
  | accept expected =>
    obtain ⟨behind, passed, fits⟩ := h.accept? expected
    refine ⟨behind, ?_⟩
    rw [ByteCursor.step?, passed, Step.onList]
    cases found : Reckoner.accept? expected s with
    | none => exact ⟨rfl, by rwa [found] at fits⟩
    | some rest => exact ⟨rfl, by rwa [found] at fits⟩
  | acceptWord word =>
    obtain ⟨behind, passed, fits⟩ := h.acceptWord? word
    refine ⟨behind, ?_⟩
    rw [ByteCursor.step?, passed, Step.onList]
    cases found : word.isPrefixOf s with
    | false => exact ⟨rfl, by rwa [found] at fits⟩
    | true => exact ⟨rfl, by rwa [found] at fits⟩
  | takeRun accepts => exact h.takeRun? accepts

end ByteCursor

/-- A place in a text. -/
structure Cursor (text : String) where
  kept : ByteCursor
  fits : ∃ remaining, kept.Fits text remaining

namespace Cursor

variable {text : String}

/-- The place in front of the first character. -/
def start (text : String) : Cursor text := ⟨.start text, _, .start text⟩

/-- The number of bytes in front of the cursor. -/
def position (c : Cursor text) : Nat := c.kept.index

/-- The character behind the cursor, or nothing at the end of the text. -/
def current? (c : Cursor text) : Option Char := c.kept.current?

theorem isSome_step? (c : Cursor text) (step : Step) : (c.kept.step? text step).isSome := by
  obtain ⟨s, fits⟩ := c.fits
  obtain ⟨next, taken, -⟩ := fits.step? step
  rw [taken]
  rfl

theorem fits_get_step? (c : Cursor text) (step : Step) :
    ∃ rest, ((c.kept.step? text step).get (c.isSome_step? step)).2.Fits text rest := by
  obtain ⟨s, fits⟩ := c.fits
  obtain ⟨next, taken, fits⟩ := fits.step? step
  simp only [taken, Option.get_some]
  exact ⟨_, fits⟩

/-- A step of a cursor, which does not fail. -/
def step (c : Cursor text) (step : Step) : step.Answer × Cursor text :=
  let after := (c.kept.step? text step).get (c.isSome_step? step)
  (after.1, ⟨after.2, c.fits_get_step? step⟩)

/-- The cursor behind the next character; at the end it stays. -/
def advance (c : Cursor text) : Cursor text := (c.step .advance).2

/-- Takes the longest run of accepted characters. -/
def takeRun (accepts : Char → Bool) (c : Cursor text) : List Char × Cursor text :=
  c.step (.takeRun accepts)

/-- Passes over spaces, and then over `expected` if that is what follows. The spaces are passed over
in either case. -/
def accept (expected : Char) (c : Cursor text) : Bool × Cursor text := c.step (.accept expected)

/-- Passes over a word if exactly that word follows, without passing over spaces. -/
def acceptWord (word : List Char) (c : Cursor text) : Bool × Cursor text :=
  c.step (.acceptWord word)

end Cursor

end Reckoner
