import Reckoner.Text.Scan

/-!
# A byte offset and the character behind it

A reader that reports where it stands keeps a byte offset into the UTF-8 form of its text, and with
it the character that begins there, so that looking at it needs no decoding. The two are brought up
to date together, but in three ways: by the width of a character, by the length of a word, and by a
loop.

Nothing in a `ByteCursor` says that it belongs to a text. Its steps slice the text at its offset,
and a slice fails where neither a character begins nor the text ends; so the steps are partial, and
`none` is a slice that failed. `Fits` says that a cursor stands in front of given remaining
characters. From there no step fails, and each does what the step of the same name does on the list
of these characters.
-/

namespace Reckoner

/-- A byte offset, and the character that begins there. -/
structure ByteCursor where
  index : Nat
  current? : Option Char

namespace ByteCursor

/-! ## Slices -/

/-- The text from an offset on. -/
def sliceFrom? (text : String) (index : Nat) : Option String.Slice :=
  (text.pos? ⟨index⟩).map text.sliceFrom

/-- The text between two offsets. -/
def slice? (text : String) (first last : Nat) : Option String.Slice := do
  text.slice? (← text.pos? ⟨first⟩) (← text.pos? ⟨last⟩)

theorem le_of_sliceFrom?_eq_some {text : String} {index : Nat} {s : String.Slice}
    (h : sliceFrom? text index = some s) : index ≤ text.utf8ByteSize := by
  obtain ⟨p, found, -⟩ := Option.map_eq_some_iff.1 h
  simp only [String.pos?, String.Slice.pos?, Option.map_eq_some_iff, Option.dite_none_right_eq_some,
    Option.some.injEq] at found
  obtain ⟨-, ⟨valid, -⟩, -⟩ := found
  exact (String.Pos.Raw.isValidForSlice_eq_true_iff.1 valid).le_utf8ByteSize

/-! ## Steps -/

/-- The cursor at an offset. -/
def at? (text : String) (index : Nat) : Option ByteCursor := do
  return ⟨index, (← sliceFrom? text index).front?⟩

/-- The cursor in front of a text. -/
def start (text : String) : ByteCursor := ⟨0, text.front?⟩

/-- Passes over a character; at the end the cursor stays. -/
def advance? (text : String) (c : ByteCursor) : Option ByteCursor :=
  match c.current? with
  | some character => at? text (c.index + character.utf8Size)
  | none => some c

/-- As long as there is a character to pass over, less of the text is left. -/
theorem lt_of_advance?_eq_some {text : String} {c next : ByteCursor} (ahead : c.current?.isSome)
    (h : advance? text c = some next) :
    text.utf8ByteSize - next.index < text.utf8ByteSize - c.index := by
  obtain ⟨character, current⟩ := Option.isSome_iff_exists.1 ahead
  simp only [advance?, current] at h
  obtain ⟨s, sliced, set⟩ := Option.bind_eq_some_iff.1 h
  cases set
  have inside := le_of_sliceFrom?_eq_some sliced
  have wide := character.utf8Size_pos
  simp only
  omega

/-- Passes over all characters of a class, up to the first that is not of it. -/
def passRun? (text : String) (accepts : Char → Bool) (c : ByteCursor) : Option ByteCursor :=
  if _ : c.current?.any accepts then
    match _ : advance? text c with
    | some next => passRun? text accepts next
    | none => none
  else some c
termination_by text.utf8ByteSize - c.index
decreasing_by exact lt_of_advance?_eq_some (Option.isSome_of_any ‹_›) ‹_›

theorem passRun?_eq (text : String) (accepts : Char → Bool) (c : ByteCursor) :
    passRun? text accepts c =
      if c.current?.any accepts then (advance? text c).bind (passRun? text accepts)
      else some c := by
  rw [passRun?]
  split
  · split
    · rename_i advanced
      rw [advanced, Option.bind_some]
    · rename_i failed
      rw [failed, Option.bind_none]
  · rfl

/-- Takes the run of accepted characters, which is the slice that has been passed over. -/
def takeRun? (text : String) (accepts : Char → Bool) (c : ByteCursor) :
    Option (List Char × ByteCursor) := do
  let behind ← passRun? text accepts c
  return ((← slice? text c.index behind.index).copy.toList, behind)

/-- Passes over spaces, and then over `expected` if that is what follows. The spaces are passed over
in either case. -/
def accept? (text : String) (expected : Char) (c : ByteCursor) : Option (Bool × ByteCursor) := do
  let c ← passRun? text (· == ' ') c
  if c.current? = some expected then return (true, ← advance? text c) else return (false, c)

/-- Passes over a word if exactly that word follows, without passing over spaces. -/
def acceptWord? (text : String) (word : List Char) (c : ByteCursor) :
    Option (Bool × ByteCursor) := do
  let word := String.ofList word
  if (← sliceFrom? text c.index).startsWith word then
    return (true, ← at? text (c.index + word.utf8ByteSize))
  else return (false, c)

/-! ## Where slices do not fail -/

/-- The characters up to an offset, and those behind it. -/
structure Divides (text : String) (index : Nat) (consumed remaining : List Char) : Prop where
  text_eq : text.toList = consumed ++ remaining
  index_eq : index = (String.ofList consumed).utf8ByteSize

namespace Divides

variable {text : String} {index : Nat} {consumed remaining word : List Char}

theorem start (text : String) : Divides text 0 [] text.toList := ⟨rfl, rfl⟩

theorem append (h : Divides text index consumed (word ++ remaining)) :
    Divides text (index + (String.ofList word).utf8ByteSize) (consumed ++ word) remaining where
  text_eq := by rw [h.text_eq, List.append_assoc]
  index_eq := by rw [h.index_eq, String.ofList_append, String.utf8ByteSize_append]

theorem eq_append (h : Divides text index consumed remaining) :
    text = String.ofList consumed ++ String.ofList remaining := by
  rw [← String.ofList_append, ← h.text_eq, String.ofList_toList]

/-- A divided text has a place at the offset. -/
theorem exists_pos? (h : Divides text index consumed remaining) :
    ∃ p, text.pos? ⟨index⟩ = some p ∧
      p.Splits (String.ofList consumed) (String.ofList remaining) := by
  have splits := String.Pos.splits_ofEqAppend h.eq_append
  generalize String.Pos.ofEqAppend h.eq_append = p at splits
  refine ⟨p, ?_, splits⟩
  have offset : p.offset = ⟨index⟩ := by
    rw [splits.offset_eq_rawEndPos, h.index_eq]
    rfl
  simp only [String.pos?, String.Slice.pos?, ← offset, Option.map_eq_some_iff,
    Option.dite_none_right_eq_some, Option.some.injEq]
  exact ⟨_, ⟨String.Pos.Raw.isValidForSlice_eq_true_iff.2 p.toSlice.isValidForSlice, rfl⟩,
    String.Pos.ext rfl⟩

theorem exists_sliceFrom? (h : Divides text index consumed remaining) :
    ∃ s, sliceFrom? text index = some s ∧ s.copy.toList = remaining := by
  obtain ⟨p, found, splits⟩ := h.exists_pos?
  refine ⟨text.sliceFrom p, by rw [sliceFrom?, found, Option.map_some], ?_⟩
  rw [splits.copy_sliceFrom_eq, String.toList_ofList]

theorem exists_slice? (h : Divides text index consumed (word ++ remaining)) :
    ∃ s, slice? text index (index + (String.ofList word).utf8ByteSize) = some s ∧
      s.copy.toList = word := by
  obtain ⟨p, first, splits⟩ := h.exists_pos?
  obtain ⟨q, last, splits'⟩ := h.append.exists_pos?
  rw [String.ofList_append] at splits splits'
  obtain ⟨le, copied⟩ := String.copy_slice_eq_iff_splits.2 ⟨_, _, splits, splits'⟩
  refine ⟨text.slice p q le, ?_, by rw [copied, String.toList_ofList]⟩
  simp [slice?, first, last, String.slice?, le]

theorem at? (h : Divides text index consumed remaining) :
    at? text index = some ⟨index, remaining.head?⟩ := by
  obtain ⟨s, sliced, copied⟩ := h.exists_sliceFrom?
  simp [ByteCursor.at?, sliced, String.Slice.front?_eq, copied]

end Divides
/-! ## Steps on the remaining characters -/

/-- A cursor in front of `remaining`. -/
structure Fits (text : String) (c : ByteCursor) (remaining : List Char) : Prop where
  divides : ∃ consumed, Divides text c.index consumed remaining
  current?_eq : c.current? = remaining.head?

namespace Fits

variable {text : String} {c next : ByteCursor} {s rest word : List Char}

theorem start (text : String) : Fits text (start text) text.toList :=
  ⟨⟨[], .start text⟩, String.front?_eq⟩

/-- A cursor that is set behind a word of the remaining characters fits there. -/
theorem at? (h : Fits text c (word ++ rest)) :
    ∃ next, at? text (c.index + (String.ofList word).utf8ByteSize) = some next ∧
      Fits text next rest := by
  obtain ⟨consumed, divides⟩ := h.divides
  exact ⟨_, divides.append.at?, ⟨_, divides.append⟩, rfl⟩

theorem index_eq (h : Fits text c (word ++ rest)) (h' : Fits text next rest) :
    next.index = c.index + (String.ofList word).utf8ByteSize := by
  obtain ⟨consumed, divides⟩ := h.divides
  obtain ⟨consumed', divides'⟩ := h'.divides
  have same : consumed ++ word = consumed' := by
    have whole := divides.text_eq.symm.trans divides'.text_eq
    rw [← List.append_assoc] at whole
    exact List.append_cancel_right whole
  rw [divides'.index_eq, ← same, String.ofList_append, String.utf8ByteSize_append,
    ← divides.index_eq]

theorem advance? (h : Fits text c s) :
    ∃ next, advance? text c = some next ∧ Fits text next s.tail := by
  cases s with
  | nil => exact ⟨c, by rw [ByteCursor.advance?, h.current?_eq]; rfl, h⟩
  | cons character rest =>
    have current : c.current? = some character := h.current?_eq
    have width : (String.ofList [character]).utf8ByteSize = character.utf8Size :=
      String.utf8ByteSize_singleton
    rw [← List.singleton_append] at h
    obtain ⟨next, set, fits⟩ := h.at?
    rw [width] at set
    exact ⟨next, by simpa only [ByteCursor.advance?, current] using set, fits⟩

/-- The induction is on the remaining characters. -/
theorem passRun? (accepts : Char → Bool) (h : Fits text c s) :
    ∃ behind, passRun? text accepts c = some behind ∧ Fits text behind (s.dropWhile accepts) := by
  induction s generalizing c with
  | nil =>
    refine ⟨c, ?_, h⟩
    rw [passRun?_eq, h.current?_eq]
    rfl
  | cons character rest ih =>
    rw [passRun?_eq, h.current?_eq, List.head?_cons, Option.any_some]
    cases accepted : accepts character with
    | false =>
      rw [List.dropWhile_cons_of_neg (by simp [accepted])]
      exact ⟨c, rfl, h⟩
    | true =>
      rw [List.dropWhile_cons_of_pos accepted]
      obtain ⟨next, advanced, fits⟩ := h.advance?
      obtain ⟨behind, passed, fits⟩ := ih fits
      exact ⟨behind, by rw [advanced, Option.bind_some, passed]; rfl, fits⟩

theorem takeRun? (accepts : Char → Bool) (h : Fits text c s) :
    ∃ behind, takeRun? text accepts c = some (s.takeWhile accepts, behind) ∧
      Fits text behind (s.dropWhile accepts) := by
  obtain ⟨behind, passed, fits⟩ := h.passRun? accepts
  rw [← List.takeWhile_append_dropWhile (p := accepts) (l := s)] at h
  obtain ⟨consumed, divides⟩ := h.divides
  obtain ⟨run, sliced, copied⟩ := divides.exists_slice?
  refine ⟨behind, ?_, fits⟩
  rw [← h.index_eq fits] at sliced
  simp [ByteCursor.takeRun?, passed, sliced, copied]

theorem accept? (expected : Char) (h : Fits text c s) :
    ∃ behind, accept? text expected c = some ((Reckoner.accept? expected s).isSome, behind) ∧
      Fits text behind ((Reckoner.accept? expected s).getD (skipSpaces s)) := by
  obtain ⟨c', passed, fits⟩ := h.passRun? (· == ' ')
  change Fits text c' (skipSpaces s) at fits
  simp only [ByteCursor.accept?, passed, Option.bind_eq_bind, Option.bind_some, fits.current?_eq,
    Reckoner.accept?]
  generalize skipSpaces s = ahead at fits ⊢
  cases ahead with
  | nil => exact ⟨c', rfl, fits⟩
  | cons character rest =>
    by_cases same : character = expected
    · obtain ⟨next, advanced, fits⟩ := fits.advance?
      exact ⟨next, by simp [same, advanced], by simpa [same] using fits⟩
    · exact ⟨c', by simp [same], by simpa [same] using fits⟩

theorem acceptWord? (word : List Char) (h : Fits text c s) :
    ∃ behind, acceptWord? text word c = some (word.isPrefixOf s, behind) ∧
      Fits text behind (if word.isPrefixOf s then s.drop word.length else s) := by
  obtain ⟨consumed, divides⟩ := h.divides
  obtain ⟨view, sliced, copied⟩ := divides.exists_sliceFrom?
  have begins : view.startsWith (String.ofList word) = word.isPrefixOf s := by
    rw [Bool.eq_iff_iff, String.Slice.startsWith_string_iff, copied, String.toList_ofList,
      List.isPrefixOf_iff_prefix]
  simp only [ByteCursor.acceptWord?, sliced, Option.bind_eq_bind, Option.bind_some, begins]
  cases found : word.isPrefixOf s with
  | false => exact ⟨c, rfl, h⟩
  | true =>
    obtain ⟨rest, rfl⟩ := List.isPrefixOf_iff_prefix.1 found
    obtain ⟨next, set, fits⟩ := h.at?
    exact ⟨next, by simp [set], by simpa using fits⟩

end Fits
end ByteCursor
end Reckoner
