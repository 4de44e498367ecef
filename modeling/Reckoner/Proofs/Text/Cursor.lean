import Reckoner.Proofs.Text.Tokens
import Reckoner.Text.Cursor

/-!
# A cursor is its remaining characters

Steps of a cursor, taken one after another from the beginning of a text, answer as the same steps do
on the list of remaining characters, and show the same character after each
(`Cursor.trace_eq_traceList`). What carries this along is `ByteCursor.Fits`; of the offset it says
that it is the length of what has been consumed, so it is a boundary at which the text can be
sliced, and it grows with what is consumed.
-/

namespace Reckoner

variable {text : String} {c next : ByteCursor} {s rest : List Char}

/-- What is seen of a step: its answer, and the character behind the cursor after it. -/
abbrev Step.Seen : Type := (step : Step) × step.Answer × Option Char

/-- What is seen of steps on the remaining characters, and what remains at last. -/
def Step.traceList : List Step → List Char → List Step.Seen × List Char
  | [], s => ([], s)
  | step :: more, s =>
    let (answer, rest) := step.onList s
    let (others, last) := traceList more rest
    (⟨step, answer, rest.head?⟩ :: others, last)

/-- What is seen of steps of what a cursor keeps, if no slice fails. -/
def ByteCursor.trace? (text : String) :
    List Step → ByteCursor → Option (List Step.Seen × ByteCursor)
  | [], c => some ([], c)
  | step :: more, c => do
    let (answer, next) ← c.step? text step
    let (others, last) ← trace? text more next
    return (⟨step, answer, next.current?⟩ :: others, last)

/-- What is seen of steps of a cursor. -/
def Cursor.trace : List Step → Cursor text → List Step.Seen × Cursor text
  | [], c => ([], c)
  | step :: more, c =>
    let (answer, next) := c.step step
    let (others, last) := trace more next
    (⟨step, answer, next.current?⟩ :: others, last)

/-! ## Forward -/

theorem Step.suffix_onList (step : Step) (s : List Char) : (step.onList s).2 <:+ s := by
  cases step with
  | advance => exact List.tail_suffix s
  | accept expected =>
    rw [Step.onList]
    cases found : accept? expected s with
    | some rest => exact suffix_of_accept? found
    | none => exact suffix_skipSpaces s
  | acceptWord word =>
    rw [Step.onList]
    split
    · exact List.drop_suffix _ s
    · exact List.suffix_rfl
  | takeRun accepts => exact List.dropWhile_suffix _

namespace ByteCursor

/-- A cursor that has less in front of it is further on. -/
theorem Fits.index_le (h : Fits text c s) (h' : Fits text next rest) (suffix : rest <:+ s) :
    c.index ≤ next.index := by
  obtain ⟨word, rfl⟩ := suffix
  rw [h.index_eq h']
  exact Nat.le_add_right _ _

/-- The offset is a place between two characters of the text. -/
theorem Fits.isValid (h : Fits text c s) : String.Pos.Raw.IsValid text ⟨c.index⟩ := by
  obtain ⟨consumed, divides⟩ := h.divides
  have boundary := String.Pos.Raw.isValid_rawEndPos.append_right (s := String.ofList consumed)
    (String.ofList s)
  rw [← divides.eq_append] at boundary
  rwa [divides.index_eq]

/-- Nothing is shown at the end of the text, and only there. -/
theorem Fits.current?_eq_none_iff (h : Fits text c s) :
    c.current? = none ↔ c.index = text.utf8ByteSize := by
  have atEnd : Fits text ⟨text.utf8ByteSize, none⟩ [] :=
    ⟨⟨text.toList, (List.append_nil _).symm, by rw [String.ofList_toList]⟩, rfl⟩
  have shown := h.current?_eq
  rw [← List.append_nil s] at h
  have whole : text.utf8ByteSize = c.index + (String.ofList s).utf8ByteSize := h.index_eq atEnd
  have empty : (String.ofList s).utf8ByteSize = 0 ↔ s = [] := by
    rw [String.utf8ByteSize_eq_zero_iff, String.ofList_eq_empty_iff]
  rw [shown, List.head?_eq_none_iff, ← empty]
  omega

/-- The induction is on the steps; after each the cursor fits what is left. -/
theorem Fits.trace? (steps : List Step) (h : Fits text c s) :
    ∃ last, c.trace? text steps = some ((Step.traceList steps s).1, last) ∧
      Fits text last (Step.traceList steps s).2 := by
  induction steps generalizing c s with
  | nil => exact ⟨c, rfl, h⟩
  | cons step more ih =>
    obtain ⟨next, taken, fits⟩ := h.step? step
    obtain ⟨last, others, fits'⟩ := ih fits
    refine ⟨last, ?_, fits'⟩
    simp [ByteCursor.trace?, Step.traceList, taken, others, fits.current?_eq]

end ByteCursor

/-- A cursor takes the steps of what it keeps. -/
theorem Cursor.step?_eq (c : Cursor text) (step : Step) :
    c.kept.step? text step = some ((c.step step).1, (c.step step).2.kept) :=
  (Option.some_get (c.isSome_step? step)).symm

theorem Cursor.trace?_eq (steps : List Step) (c : Cursor text) :
    c.kept.trace? text steps = some ((c.trace steps).1, (c.trace steps).2.kept) := by
  induction steps generalizing c with
  | nil => rfl
  | cons step more ih =>
    rw [ByteCursor.trace?, c.step?_eq step]
    simp [Cursor.trace, ih, Cursor.current?]

/-! ## Runs -/

/-- Whatever steps are taken from the beginning of a text, the cursor answers and shows what the
list of remaining characters does, and no slice fails. The offset is the length of what has been
consumed in bytes: a boundary, not behind the end of the text, and no step takes it back. -/
theorem Cursor.trace_eq_traceList (text : String) (steps : List Step) :
    ∃ consumed remaining kept,
      text.toList = consumed ++ remaining ∧
      Step.traceList steps text.toList = (((start text).trace steps).1, remaining) ∧
      ByteCursor.trace? text steps (.start text) = some (((start text).trace steps).1, kept) ∧
      ((start text).trace steps).2.kept = kept ∧
      kept.index = (String.ofList consumed).utf8ByteSize ∧
      String.Pos.Raw.IsValid text ⟨kept.index⟩ ∧ kept.index ≤ text.utf8ByteSize ∧
      kept.current? = remaining.head? ∧
      (kept.current? = none ↔ kept.index = text.utf8ByteSize) ∧
      (∃ view, ByteCursor.sliceFrom? text kept.index = some view ∧ view.copy.toList = remaining) ∧
      ∀ step, ∃ next, kept.step? text step = some ((step.onList remaining).1, next) ∧
        kept.index ≤ next.index := by
  obtain ⟨kept, traced, fits⟩ := (ByteCursor.Fits.start text).trace? steps
  have same := (Cursor.trace?_eq steps (start text)).symm.trans traced
  obtain ⟨seen, last⟩ := Prod.mk.inj (Option.some.inj same)
  obtain ⟨consumed, divides⟩ := fits.divides
  refine ⟨consumed, _, kept, divides.text_eq, by rw [seen], by rw [seen, traced], last,
    divides.index_eq, fits.isValid, fits.isValid.le_utf8ByteSize, fits.current?_eq,
    fits.current?_eq_none_iff, divides.exists_sliceFrom?, fun step => ?_⟩
  obtain ⟨next, taken, behind⟩ := fits.step? step
  exact ⟨next, taken, fits.index_le behind (step.suffix_onList _)⟩

end Reckoner
