import Mathlib.Data.List.DropRight
import Reckoner.Dialogue.Transcript
import Reckoner.Proofs.Text.Lines

/-!
# What a dialogue writes

On an output that takes everything, a dialogue is determined line by line. The lines up to the first
one that is no text or is the exit word are its questions; `script` is the prompt with an answer, a
line feed and the prompt again for each of them. `converse_eq_script` says that this is the whole
transcript, and that neither what stands behind the exit word nor a carriage return in front of a
line feed has any part in it.
-/

namespace Reckoner

@[simp] theorem utf8_append (s t : List Char) : utf8 (s ++ t) = utf8 s ++ utf8 t :=
  List.flatMap_append

theorem RawLine.trimEnd_trimEnd (line : RawLine) : trimEnd (trimEnd line) = trimEnd line := by
  unfold trimEnd
  rw [List.reverse_reverse, List.dropWhile_idempotent]

theorem RawLine.text?_trimEnd (line : RawLine) : text? (trimEnd line) = text? line := by
  unfold text?
  rw [trimEnd_trimEnd]

/-- Without a limit a text is written as it is. -/
theorem emit_none (text : List Char) (next : Capacity → Transcript) :
    emit none text next =
      { output := utf8 text ++ (next none).output, ending := (next none).ending } := rfl

namespace Settings

variable (settings : Settings)

/-- Whether a line is answered: it is text, and not the exit word. -/
def isAnswered (line : RawLine) : Bool := line.text?.any fun text => !settings.isExit text

/-- The texts that are answered: those of the lines in front of the first one that is not. -/
def questions (lines : List RawLine) : List (List Char) :=
  (lines.takeWhile settings.isAnswered).filterMap RawLine.text?

/-- How a dialogue ends at the first line that is not answered. -/
def endingBehind (lines : List RawLine) : Ending :=
  match (lines.dropWhile settings.isAnswered).head? with
  | none => .finished
  | some line => if line.text? = none then .invalidData else .finished

/-- The prompt, and then for each text its answer, a line feed and the prompt. -/
def script (texts : List (List Char)) : List Char :=
  let prompt := settings.language.phrases.prompt.toList
  prompt ++ texts.flatMap fun text => settings.answer text ++ '\n' :: prompt

theorem script_cons (text : List Char) (texts : List (List Char)) :
    settings.script (text :: texts) =
      settings.language.phrases.prompt.toList ++ (settings.answer text ++ ['\n'] ++
        settings.script texts) := by
  simp [script]

/-! ## One line -/

/-- A line is invalid, or the exit word, or answered. -/
theorem turn_cases (line : RawLine) :
    (line.text? = none ∧ settings.isAnswered line = false ∧
      settings.turn line = .stop .invalidData) ∨
    (∃ text, line.text? = some text ∧ settings.isExit text = true ∧
      settings.isAnswered line = false ∧ settings.turn line = .stop .finished) ∨
    (∃ text, line.text? = some text ∧ settings.respond text = some (settings.answer text) ∧
      settings.isAnswered line = true ∧
      settings.turn line = .answer (settings.answer text ++ ['\n'])) := by
  unfold turn isAnswered respond
  cases read : line.text? with
  | none => exact .inl ⟨rfl, rfl, rfl⟩
  | some text =>
    cases leaves : settings.isExit text with
    | true => exact .inr (.inl ⟨text, rfl, leaves, by simp [leaves], by simp [leaves]⟩)
    | false => exact .inr (.inr ⟨text, rfl, by simp [leaves], by simp [leaves], by simp [leaves]⟩)

theorem turn_trimEnd (line : RawLine) : settings.turn line.trimEnd = settings.turn line := by
  unfold turn
  rw [RawLine.text?_trimEnd]

/-! ## All lines -/

/-- The transcript of a dialogue over lines, by induction on these. -/
theorem converseLines_none (lines : List RawLine) :
    settings.converseLines none lines =
      { output := utf8 (settings.script (settings.questions lines))
        ending := settings.endingBehind lines } := by
  induction lines with
  | nil => simp [converseLines, emit_none, script, questions, endingBehind]
  | cons line more ih =>
    rw [converseLines, emit_none]
    rcases settings.turn_cases line with
      ⟨invalid, refused, stops⟩ | ⟨text, read, _, refused, stops⟩ | ⟨text, read, _, kept, answers⟩
    · simp [stops, script, questions, endingBehind, refused, invalid]
    · simp [stops, script, questions, endingBehind, refused, read]
    · have first : settings.questions (line :: more) = text :: settings.questions more := by
        simp [questions, kept, read]
      have last : settings.endingBehind (line :: more) = settings.endingBehind more := by
        simp [endingBehind, kept]
      simp only [answers, emit_none, ih, first, last, script_cons, utf8_append]

/-- Every question has its answer. -/
theorem respond_of_mem_questions {lines : List RawLine} {text : List Char}
    (member : text ∈ settings.questions lines) :
    settings.respond text = some (settings.answer text) := by
  obtain ⟨line, before, read⟩ := List.mem_filterMap.1 member
  have kept := List.mem_takeWhile_imp before
  rcases settings.turn_cases line with
    ⟨_, refused, _⟩ | ⟨_, _, _, refused, _⟩ | ⟨text', read', responds, _, _⟩
  · exact absurd kept (by simp [refused])
  · exact absurd kept (by simp [refused])
  · cases read.symm.trans read'
    exact responds

/-- A dialogue does not depend on the carriage returns at the ends of its lines. -/
theorem converseLines_map_trimEnd (capacity : Capacity) (lines : List RawLine) :
    settings.converseLines capacity (lines.map RawLine.trimEnd) =
      settings.converseLines capacity lines := by
  induction lines generalizing capacity with
  | nil => rfl
  | cons line more ih =>
    rw [List.map_cons, converseLines, converseLines, turn_trimEnd]
    simp only [ih]

/-- What stands behind a line that ends the dialogue has no part in it. -/
theorem converseLines_append_stop {line : RawLine} {ending : Ending}
    (stops : settings.turn line = .stop ending) (capacity : Capacity) (lines more : List RawLine) :
    settings.converseLines capacity (lines ++ line :: more) =
      settings.converseLines capacity (lines ++ [line]) := by
  induction lines generalizing capacity with
  | nil => simp only [List.nil_append, converseLines, stops]
  | cons first lines ih =>
    simp only [List.cons_append, converseLines, ih]

/-! ## Whole inputs -/

/-- The exit word is not empty. -/
theorem isExit_nil : settings.isExit [] = false := by
  rw [isExit]
  cases settings.language <;> decide +kernel

theorem ne_nil_of_isExit {line : RawLine} {text : List Char} (read : line.text? = some text)
    (leaves : settings.isExit text = true) : line ≠ [] := by
  rintro rfl
  have empty : RawLine.text? [] = some [] := by decide
  cases empty.symm.trans read
  exact Bool.false_ne_true (settings.isExit_nil.symm.trans leaves)

theorem converse_append_exit {capacity : Capacity} {before : List UInt8} {line : RawLine}
    {text : List Char} (ends : RawLine.EndsLine before) (noFeed : RawLine.lineFeed ∉ line)
    (read : line.text? = some text) (leaves : settings.isExit text = true) (after : List UInt8) :
    settings.converse capacity (before ++ line ++ RawLine.lineFeed :: after) =
      settings.converse capacity (before ++ line) := by
  have stops : settings.turn line = .stop .finished := by
    simp [turn, read, respond, leaves]
  obtain ⟨lines, alone, followed⟩ :=
    RawLine.exists_split_append_line ends noFeed (settings.ne_nil_of_isExit read leaves)
  rw [converse, converse, alone, followed after]
  exact settings.converseLines_append_stop stops capacity lines _

theorem converse_append_replicate (capacity : Capacity) (before after : List UInt8) (n : Nat) :
    settings.converse capacity
        (before ++ List.replicate n RawLine.carriageReturn ++ RawLine.lineFeed :: after) =
      settings.converse capacity (before ++ RawLine.lineFeed :: after) := by
  rw [converse, converse, ← converseLines_map_trimEnd, ← settings.converseLines_map_trimEnd capacity
    (RawLine.split (before ++ _)), RawLine.map_trimEnd_split_append_replicate]

/-- On an output that takes everything, the transcript is the script of the questions, and its
ending that of the first line which is no question. Nothing behind a line with the exit word counts,
and no carriage return in front of a line feed. -/
theorem converse_eq_script (input : List UInt8) :
    settings.converse none input =
      { output := utf8 (settings.script (settings.questions (RawLine.pieces input)))
        ending := settings.endingBehind (RawLine.pieces input) } ∧
    (∀ text ∈ settings.questions (RawLine.pieces input),
      settings.respond text = some (settings.answer text)) ∧
    (∀ (before : List UInt8) (line : RawLine) (text : List Char) (after : List UInt8),
      RawLine.EndsLine before → RawLine.lineFeed ∉ line → line.text? = some text →
      settings.isExit text = true →
      settings.converse none (before ++ line ++ RawLine.lineFeed :: after) =
        settings.converse none (before ++ line)) ∧
    (∀ (before after : List UInt8) (n : Nat),
      settings.converse none
          (before ++ List.replicate n RawLine.carriageReturn ++ RawLine.lineFeed :: after) =
        settings.converse none (before ++ RawLine.lineFeed :: after)) := by
  refine ⟨?_, ?_, ?_, ?_⟩
  · rw [converse, RawLine.split_eq_pieces]
    exact settings.converseLines_none _
  · intro text member
    exact settings.respond_of_mem_questions member
  · intro before line text after ends noFeed read leaves
    exact settings.converse_append_exit ends noFeed read leaves after
  · intro before after n
    exact settings.converse_append_replicate none before after n

/-- Behind the exit word not even valid text is called for. -/
theorem converse_exit_invalid :
    RawLine.EndsLine (utf8 "(1)\n".toList) ∧
    RawLine.lineFeed ∉ utf8 "eXit\r".toList ∧
    RawLine.text? (utf8 "eXit\r".toList) = some "eXit".toList ∧
    isExit {} "eXit".toList = true ∧
    converse {} none (utf8 "(1)\n".toList ++ utf8 "eXit\r".toList ++ RawLine.lineFeed :: [0xFF]) =
      converse {} none (utf8 "(1)\n".toList ++ utf8 "eXit\r".toList) := by
  have ends : RawLine.EndsLine (utf8 "(1)\n".toList) := .inr rfl
  have noFeed : RawLine.lineFeed ∉ utf8 "eXit\r".toList := by decide
  have read : RawLine.text? (utf8 "eXit\r".toList) = some "eXit".toList := by decide
  have leaves : isExit {} "eXit".toList = true := rfl
  exact ⟨ends, noFeed, read, leaves,
    (converse_eq_script {} []).2.2.1 _ _ _ [0xFF] ends noFeed read leaves⟩

end Settings

end Reckoner
