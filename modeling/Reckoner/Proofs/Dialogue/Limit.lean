import Reckoner.Proofs.Dialogue.Script

/-!
# A limited output

An output that takes only so many bytes cuts a dialogue off and does nothing else to it: what has
been written is the beginning of what an unlimited output would have received, and how the dialogue
ended is the same unless there was no room for all of that.

The argument is about single texts. `Truncates f` says that `f` goes with its capacity like that;
writing a text in front of something that does so does so as well (`truncates_emit`), and a dialogue
is made of texts that are written one behind the other.
-/

namespace Reckoner

/-- With a limit a text is written as far as it fits, and what does not fit ends everything. -/
theorem emit_some (room : Nat) (text : List Char) (next : Capacity → Transcript) :
    emit (some room) text next =
      if (utf8 text).length ≤ room then
        { output := utf8 text ++ (next (some (room - (utf8 text).length))).output
          ending := (next (some (room - (utf8 text).length))).ending }
      else { output := (utf8 text).take room, ending := .writeZero } := rfl

/-- What is left of a transcript where the output takes `n` bytes. -/
def Transcript.truncate (n : Nat) (whole : Transcript) : Transcript :=
  if n < whole.output.length then { output := whole.output.take n, ending := .writeZero } else whole

/-- With `n` bytes of room there comes what comes without a limit, cut off behind `n` bytes. -/
def Truncates (f : Capacity → Transcript) : Prop := ∀ n, f (some n) = (f none).truncate n

theorem truncates_nothing (ending : Ending) : Truncates fun _ => { output := [], ending } := by
  intro n
  rfl

/-- The cut is in the text that is written first, or in what follows it with the room that is
left. -/
theorem truncates_emit (text : List Char) {next : Capacity → Transcript} (h : Truncates next) :
    Truncates fun capacity => emit capacity text next := by
  intro n
  show emit (some n) text next = (emit none text next).truncate n
  rw [emit_some, emit_none, Transcript.truncate, List.length_append]
  by_cases fits : (utf8 text).length ≤ n
  · rw [if_pos fits, h, Transcript.truncate]
    by_cases cut : n - (utf8 text).length < (next none).output.length
    · rw [if_pos cut, if_pos (by omega), List.take_append, List.take_of_length_le fits]
    · rw [if_neg cut, if_neg (by omega)]
  · rw [if_neg fits, if_pos (by omega), List.take_append_of_le_length (by omega)]

namespace Settings

variable (settings : Settings)

theorem truncates_converseLines (lines : List RawLine) :
    Truncates fun capacity => settings.converseLines capacity lines := by
  induction lines with
  | nil =>
    simp only [converseLines]
    exact truncates_emit _ (truncates_nothing _)
  | cons line more ih =>
    simp only [converseLines]
    refine truncates_emit _ ?_
    cases settings.turn line with
    | stop ending => exact truncates_nothing ending
    | answer text => exact truncates_emit text ih

/-- An unlimited output never fails. -/
theorem ending_converse_none (input : List UInt8) :
    (settings.converse none input).ending ≠ .writeZero := by
  rw [converse, converseLines_none]
  unfold endingBehind
  split
  · simp
  · split <;> simp

/-- An output that takes `n` bytes receives the first `n` bytes of what an unlimited one receives.
The dialogue fails for that exactly if there are more, and otherwise it ends as it would without a
limit. -/
theorem converse_limited (input : List UInt8) (n : Nat) :
    (settings.converse (some n) input).output =
      (settings.converse none input).output.take
        (min n (settings.converse none input).output.length) ∧
    ((settings.converse (some n) input).ending = .writeZero ↔
      n < (settings.converse none input).output.length) ∧
    (settings.converse (some n) input).ending =
      if n < (settings.converse none input).output.length then .writeZero
      else (settings.converse none input).ending := by
  have truncated : settings.converse (some n) input = (settings.converse none input).truncate n :=
    settings.truncates_converseLines (RawLine.split input) n
  have unlimited := settings.ending_converse_none input
  rw [truncated, Transcript.truncate]
  by_cases cut : n < (settings.converse none input).output.length
  · rw [if_pos cut, if_pos cut, Nat.min_eq_left (Nat.le_of_lt cut)]
    exact ⟨rfl, by simp [cut], rfl⟩
  · rw [if_neg cut, if_neg cut, Nat.min_eq_right (Nat.le_of_not_lt cut), List.take_length]
    exact ⟨rfl, by simp [cut, unlimited], rfl⟩

end Settings

end Reckoner
