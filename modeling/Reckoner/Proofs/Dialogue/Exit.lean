import Reckoner.Proofs.Dialogue.Script
import Reckoner.Proofs.Text.LowerCase

/-!
# The exit word, and nothing else, ends a dialogue

A line ends a dialogue if its lower case is the exit word. The letters of the exit words are plain,
so these are the lines that write the word in small letters and capitals; no mapping of a foreign
letter, and none that changes the length of the text, brings about another
(`Settings.respond_eq_none_iff`).

A line that is answered takes its turn and leaves the rest of the dialogue as it would have been
without it (`Settings.converse_line`); by induction so do any number of them.
-/

namespace Reckoner

namespace Language

variable (language : Language)

/-- The letters of the exit word. -/
def exitLetters : Language → List Letter
  | .english => [⟨'e', 'E'⟩, ⟨'x', 'X'⟩, ⟨'i', 'I'⟩, ⟨'t', 'T'⟩]
  | .russian => [⟨'в', 'В'⟩, ⟨'ы', 'Ы'⟩, ⟨'х', 'Х'⟩, ⟨'о', 'О'⟩, ⟨'д', 'Д'⟩]

/-- Whether a text is the exit word, each letter of it small or capital. -/
def WritesExit (text : List Char) : Prop :=
  List.Forall₂ (fun c letter => letter.Writes c) text language.exitLetters

instance (text : List Char) : Decidable (language.WritesExit text) :=
  inferInstanceAs (Decidable (List.Forall₂ _ _ _))

theorem map_small_exitLetters :
    language.exitLetters.map Letter.small = language.phrases.exitWord.toList := by
  cases language <;> decide

theorem plain_of_mem_exitLetters : ∀ letter ∈ language.exitLetters, letter.Plain := by
  cases language <;> decide +kernel

/-- However sigmas become lower case, a text becomes the exit word only by writing it. -/
theorem lowered_eq_exitWord_iff {text lowered : List Char} (h : Lowered text lowered) :
    lowered = language.phrases.exitWord.toList ↔ language.WritesExit text := by
  rw [← language.map_small_exitLetters]
  exact h.eq_iff language.plain_of_mem_exitLetters

/-- The exit word is in lower case. -/
theorem lowerCaseText_exitWord :
    lowerCaseText language.phrases.exitWord.toList = language.phrases.exitWord.toList := by
  cases language <;> decide +kernel

end Language

namespace Settings

variable (settings : Settings)

/-! ## One line -/

theorem isExit_iff {text : List Char} :
    settings.isExit text = true ↔ settings.language.WritesExit text := by
  rw [isExit, beq_iff_eq, settings.language.lowerCaseText_exitWord]
  exact settings.language.lowered_eq_exitWord_iff (lowered_lowerCaseText text)

theorem respond_eq_none_iff {text : List Char} :
    settings.respond text = none ↔ settings.language.WritesExit text := by
  rw [← settings.isExit_iff, respond]
  cases settings.isExit text <;> simp

theorem respond_of_not_writesExit {text : List Char}
    (stays : ¬ settings.language.WritesExit text) :
    settings.respond text = some (settings.answer text) := by
  rw [respond, if_neg (mt settings.isExit_iff.1 stays)]

/-! ## One turn -/

/-- What is written for a line that is answered. -/
def exchange (text : List Char) : List Char :=
  settings.language.phrases.prompt.toList ++ (settings.answer text ++ ['\n'])

variable {line : RawLine} {text : List Char}

/-- A line that is answered leaves the rest of the dialogue as it would be without it. -/
theorem converse_line (noFeed : RawLine.lineFeed ∉ line) (read : line.text? = some text)
    (stays : ¬ settings.language.WritesExit text) (after : List UInt8) :
    settings.converse none (line ++ RawLine.lineFeed :: after) =
      { output := utf8 (settings.exchange text) ++ (settings.converse none after).output
        ending := (settings.converse none after).ending } := by
  have answers : settings.turn line = .answer (settings.answer text ++ ['\n']) := by
    rw [turn, read]
    simp only [settings.respond_of_not_writesExit stays]
  rw [converse, RawLine.split_line noFeed, converseLines, answers]
  simp only [emit_none, exchange, utf8_append, List.append_assoc, converse]

/-- At the exit word the dialogue ends, whatever follows. -/
theorem converse_exit (noFeed : RawLine.lineFeed ∉ line) (read : line.text? = some text)
    (leaves : settings.language.WritesExit text) (after : List UInt8) :
    settings.converse none (line ++ RawLine.lineFeed :: after) =
      { output := utf8 settings.language.phrases.prompt.toList, ending := .finished } := by
  have stops : settings.turn line = .stop .finished := by
    rw [turn, read]
    simp only [settings.respond_eq_none_iff.2 leaves]
  rw [converse, RawLine.split_line noFeed, converseLines, stops]
  simp only [emit_none, List.append_nil]

/-! ## A dialogue -/

/-- A line of text that is not the exit word. -/
def Stays (line : RawLine) : Prop :=
  RawLine.lineFeed ∉ line ∧ ∃ text, line.text? = some text ∧ ¬ settings.language.WritesExit text

/-- Lines that are answered, by induction on these. -/
theorem converse_lines {lines : List RawLine} (stay : ∀ line ∈ lines, settings.Stays line)
    (after : List UInt8) :
    settings.converse none (lines.flatMap (· ++ [RawLine.lineFeed]) ++ after) =
      { output := utf8 ((lines.filterMap RawLine.text?).flatMap settings.exchange) ++
          (settings.converse none after).output
        ending := (settings.converse none after).ending } := by
  induction lines with
  | nil => rfl
  | cons line lines ih =>
    obtain ⟨noFeed, text, read, stays⟩ := stay line List.mem_cons_self
    have others := ih fun line' member => stay line' (List.mem_cons_of_mem _ member)
    rw [List.flatMap_cons, List.append_assoc, List.append_assoc, List.singleton_append,
      settings.converse_line noFeed read stays, others, List.filterMap_cons_some read,
      List.flatMap_cons, utf8_append, List.append_assoc]

/-- Only the exit word ends a dialogue. -/
structure OnlyExitWordEnds (settings : Settings) : Prop where
  letters :
    settings.language.exitLetters.map Letter.small = settings.language.phrases.exitWord.toList
  /-- A text is given no answer exactly if it has as many characters as the exit word and each is
  the letter of the word in its place, small or capital. -/
  written : ∀ text, settings.respond text = none ↔
    List.Forall₂ (fun c letter => c = letter.small ∨ c = letter.capital) text
      settings.language.exitLetters
  /-- It makes no difference to this which small letter a capital sigma has. -/
  lowered : ∀ text lowered, Lowered text lowered →
    (lowered = settings.language.phrases.exitWord.toList ↔ settings.respond text = none)
  /-- Every other text is answered, whatever its content. -/
  answered : ∀ text, settings.respond text ≠ none →
    settings.respond text = some (settings.answer text)
  /-- Lines that are answered make no difference to what is written for those behind them. -/
  passed : ∀ (lines : List RawLine) (after : List UInt8), (∀ line ∈ lines, settings.Stays line) →
    settings.converse none (lines.flatMap (· ++ [RawLine.lineFeed]) ++ after) =
      { output := utf8 ((lines.filterMap RawLine.text?).flatMap settings.exchange) ++
          (settings.converse none after).output
        ending := (settings.converse none after).ending }
  /-- Behind the exit word nothing is written. -/
  ended : ∀ (line : RawLine) (text : List Char) (after : List UInt8),
    RawLine.lineFeed ∉ line → line.text? = some text → settings.language.WritesExit text →
    settings.converse none (line ++ RawLine.lineFeed :: after) =
      { output := utf8 settings.language.phrases.prompt.toList, ending := .finished }

/-- Whatever the settings are, no line but the exit word of their language ends a dialogue, and the
lines in front of it leave no trace in what comes after them. -/
theorem only_exitWord_ends : settings.OnlyExitWordEnds where
  letters := settings.language.map_small_exitLetters
  written text := settings.respond_eq_none_iff
  lowered text lowered lower := by
    rw [settings.respond_eq_none_iff]
    exact settings.language.lowered_eq_exitWord_iff lower
  answered text answered :=
    settings.respond_of_not_writesExit (mt settings.respond_eq_none_iff.2 answered)
  passed lines after stay := settings.converse_lines stay after
  ended line text after noFeed read leaves := settings.converse_exit noFeed read leaves after

/-- Neither a dotted capital nor a space behind the word ends a dialogue, and mixed letters do. -/
theorem only_exitWord_ends_dotted :
    let lines := [utf8 "EXİT".toList, utf8 "exit ".toList]
    (∀ line ∈ lines, Stays {} line) ∧ respond {} "EXİT".toList ≠ none ∧
    RawLine.lineFeed ∉ utf8 "eXit\r".toList ∧
    RawLine.text? (utf8 "eXit\r".toList) = some "eXit".toList ∧
    Language.english.WritesExit "eXit".toList ∧
    Lowered "eXit".toList "exit".toList ∧ respond {} "eXit".toList = none ∧
    converse {} none (lines.flatMap (· ++ [RawLine.lineFeed]) ++
        (utf8 "eXit\r".toList ++ RawLine.lineFeed :: [0xFF])) =
      { output := utf8 (exchange {} "EXİT".toList ++ exchange {} "exit ".toList) ++
          utf8 Language.english.phrases.prompt.toList
        ending := .finished } := by
  intro lines
  have only := only_exitWord_ends {}
  have dotted : RawLine.text? (utf8 "EXİT".toList) = some "EXİT".toList := by decide +kernel
  have spaced : RawLine.text? (utf8 "exit ".toList) = some "exit ".toList := by decide +kernel
  have stay : ∀ line ∈ lines, Stays {} line := by
    simp only [lines, List.mem_cons, List.not_mem_nil, or_false, forall_eq_or_imp, forall_eq]
    exact ⟨⟨by decide +kernel, _, dotted, by decide⟩, ⟨by decide +kernel, _, spaced, by decide⟩⟩
  have noFeed : RawLine.lineFeed ∉ utf8 "eXit\r".toList := by decide +kernel
  have read : RawLine.text? (utf8 "eXit\r".toList) = some "eXit".toList := by decide +kernel
  have writes : Language.english.WritesExit "eXit".toList := by decide
  have lower : Lowered "eXit".toList "exit".toList := by
    have same : lowerCaseText "eXit".toList = "exit".toList := by decide +kernel
    exact same ▸ lowered_lowerCaseText _
  refine ⟨stay, mt (only.written _).1 (by decide), noFeed, read, writes, lower,
    (only.lowered _ _ lower).1 rfl, ?_⟩
  have texts : lines.filterMap RawLine.text? = ["EXİT".toList, "exit ".toList] := by
    simp only [lines, List.filterMap_cons, dotted, spaced, List.filterMap_nil]
  rw [only.passed lines _ stay, only.ended _ _ _ noFeed read writes, texts]
  simp [List.flatMap_cons]

end Settings
end Reckoner
