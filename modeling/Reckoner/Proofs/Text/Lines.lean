import Mathlib.Data.List.Basic
import Reckoner.Text.Lines

/-!
# Lines as pieces

`RawLine.pieces` says what the lines of an input are and not how they are found: they are what
stands between the line feeds. `split_eq_pieces` says that reading the input from front to back
finds exactly these. What is put in front of a line feed or behind it then changes the pieces on
that side only, and carriage returns in front of a line feed change no line that has been trimmed.
-/

namespace Reckoner.RawLine

/-- What stands between the line feeds of an input; the last piece is a line only if it is not
empty. -/
def pieces (input : List UInt8) : List RawLine :=
  let all := input.splitOn lineFeed
  if all.getLast? = some [] then all.dropLast else all

/-! ## What is found is what there is -/

/-- Behind a line feed the lines are those of the rest. -/
theorem pieces_append_lineFeed (before after : List UInt8) :
    pieces (before ++ lineFeed :: after) = before.splitOn lineFeed ++ pieces after := by
  have rest : after.splitOn lineFeed ≠ [] := List.splitOn_ne_nil _ _
  simp only [pieces, List.splitOn_append_cons_self, List.getLast?_append_of_ne_nil _ rest,
    List.dropLast_append_of_ne_nil rest]
  split
  · rfl
  · rfl

/-- The first byte of an input is a line feed behind an empty piece, or it begins the first
piece. -/
theorem splitOn_cons (byte : UInt8) (rest : List UInt8) :
    (byte :: rest).splitOn lineFeed =
      if byte = lineFeed then [] :: rest.splitOn lineFeed
      else (rest.splitOn lineFeed).modifyHead (byte :: ·) := by
  simp only [List.splitOn_cons_eq_if_modifyHead, beq_iff_eq]

theorem split_cons_of_ne {byte : UInt8} (h : byte ≠ lineFeed) (rest : List UInt8) :
    split (byte :: rest) =
      match split rest with
      | [] => [[byte]]
      | line :: more => (byte :: line) :: more := by
  rw [split]
  exact if_neg h

theorem split_eq_pieces (input : List UInt8) : split input = pieces input := by
  induction input with
  | nil => rfl
  | cons byte rest ih =>
    by_cases feed : byte = lineFeed
    · subst feed
      have behind := pieces_append_lineFeed [] rest
      rw [List.nil_append, List.splitOn_nil] at behind
      rw [behind, split, if_pos rfl, ih]
      rfl
    · rw [split_cons_of_ne feed, ih, pieces, pieces, splitOn_cons, if_neg feed]
      -- the byte belongs to the first piece, which may be the last one as well
      obtain ⟨line, more, shape⟩ := List.exists_cons_of_ne_nil (List.splitOn_ne_nil lineFeed rest)
      rw [shape, List.modifyHead_cons]
      cases more with
      | nil => cases line <;> rfl
      | cons next others =>
        simp only [List.getLast?_cons_cons, List.dropLast_cons_cons]
        by_cases empty : (next :: others).getLast? = some []
        · simp only [if_pos empty]
        · simp only [if_neg empty]

/-- A line that is ended by a line feed stands in front of the lines of the rest. -/
theorem split_line {line : RawLine} (noFeed : lineFeed ∉ line) (after : List UInt8) :
    split (line ++ lineFeed :: after) = line :: split after := by
  rw [split_eq_pieces, split_eq_pieces, pieces_append_lineFeed, List.splitOn_eq_singleton noFeed,
    List.singleton_append]

/-! ## Text in front of a line feed -/

/-- What holds no line feed prolongs the last piece. -/
theorem exists_splitOn_append (before : List UInt8) {more : List UInt8} (noFeed : lineFeed ∉ more) :
    ∃ lines line, before.splitOn lineFeed = lines ++ [line] ∧
      (before ++ more).splitOn lineFeed = lines ++ [line ++ more] := by
  induction before with
  | nil => exact ⟨[], [], rfl, List.splitOn_eq_singleton noFeed⟩
  | cons byte before ih =>
    obtain ⟨lines, line, whole, prolonged⟩ := ih
    rw [List.cons_append, splitOn_cons, splitOn_cons, whole, prolonged]
    by_cases feed : byte = lineFeed
    · exact ⟨[] :: lines, line, by simp [feed], by simp [feed]⟩
    · rw [if_neg feed, if_neg feed]
      cases lines with
      | nil => exact ⟨[], byte :: line, rfl, rfl⟩
      | cons first lines => exact ⟨(byte :: first) :: lines, line, rfl, rfl⟩

/-- Carriage returns at the end of a line are dropped. -/
theorem trimEnd_append_replicate (line : RawLine) (n : Nat) :
    trimEnd (line ++ List.replicate n carriageReturn) = trimEnd line := by
  unfold trimEnd
  rw [List.reverse_append, List.reverse_replicate, List.dropWhile_append_of_pos]
  intro byte member
  rw [List.eq_of_mem_replicate member]
  rfl

/-- Carriage returns in front of a line feed change no trimmed line. -/
theorem map_trimEnd_split_append_replicate (before after : List UInt8) (n : Nat) :
    (split (before ++ List.replicate n carriageReturn ++ lineFeed :: after)).map trimEnd =
      (split (before ++ lineFeed :: after)).map trimEnd := by
  have noFeed : lineFeed ∉ List.replicate n carriageReturn := by
    rw [List.mem_replicate]
    exact fun member => absurd member.2 (by decide)
  obtain ⟨lines, line, whole, prolonged⟩ := exists_splitOn_append before noFeed
  simp only [split_eq_pieces, pieces_append_lineFeed, whole, prolonged, List.map_append,
    List.map_cons, List.map_nil, trimEnd_append_replicate]

/-- The place behind these bytes is the beginning of a line. -/
def EndsLine (before : List UInt8) : Prop := before = [] ∨ before.getLast? = some lineFeed

/-- A line in the midst of an input stands between the lines in front of it and those behind it. -/
theorem exists_split_append_line {before line : List UInt8} (ends : EndsLine before)
    (noFeed : lineFeed ∉ line) (nonempty : line ≠ []) :
    ∃ lines, split (before ++ line) = lines ++ [line] ∧
      ∀ after, split (before ++ line ++ lineFeed :: after) = lines ++ line :: split after := by
  obtain ⟨lines, last, whole, prolonged⟩ := exists_splitOn_append before noFeed
  -- the last piece in front of the line is empty
  have fresh : last = [] := by
    have final := congrArg List.getLast? whole
    rw [List.getLast?_append, List.getLast?_singleton, Option.some_or] at final
    rcases ends with rfl | feed
    · exact (Option.some.inj final).symm
    · obtain ⟨begun, rfl⟩ := List.getLast?_eq_some_iff.1 feed
      rw [List.splitOn_append_cons_self, List.splitOn_nil, List.getLast?_append,
        List.getLast?_singleton, Option.some_or] at final
      exact (Option.some.inj final).symm
  subst fresh
  refine ⟨lines, ?_, fun after => ?_⟩
  · rw [split_eq_pieces, pieces, prolonged, List.nil_append]
    simp [nonempty]
  · rw [split_eq_pieces, split_eq_pieces, pieces_append_lineFeed, prolonged, List.nil_append,
      List.append_assoc]
    rfl

end Reckoner.RawLine
