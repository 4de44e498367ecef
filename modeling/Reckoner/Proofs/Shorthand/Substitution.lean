import Reckoner.Proofs.Text.Tokens
import Reckoner.Shorthand.Expansion

/-!
# What the substitutions spare

Each pattern of the shorthand needs some character to be found: a slash, the first letter of a call,
a caret. A stretch of text without that character is spared, provided that the text behind it cannot
complete an occurrence which the stretch begins. `Boundary` is a condition on the text behind that
rules this out for all four patterns, and `Spares` collects what follows for one of them.
-/

namespace Reckoner

/-- A stretch of text is kept where no occurrence begins in it. A pattern that needs a character is
not found where that character is absent. -/
theorem Pattern.substitute_append_of_not_mem {pattern : Pattern} {c : Char} {u rest : List Char}
    (needs : ∀ d v, c ∉ d :: v → pattern (d :: (v ++ rest)) = none) (absent : c ∉ u) :
    pattern.substitute (u ++ rest) = u ++ pattern.substitute rest := by
  induction u with
  | nil => rfl
  | cons d v ih =>
    rw [List.cons_append, substitute_of_none (needs d v absent),
      ih (List.not_mem_of_not_mem_cons absent), List.cons_append]

namespace Shorthand

/-! ## Words and operands at the front of a text -/

@[simp] theorem behind?_append (word rest : List Char) :
    behind? word (word ++ rest) = some rest := by
  simp [behind?]

theorem behind?_eq_none {word s : List Char} (h : ¬ word <+: s) : behind? word s = none := if_neg h

theorem operands?_eq_none_of_not_prefix {separator s : List Char}
    (h : ¬ separator <+: s.dropWhile Char.isDigit) : operands? separator s = none := by
  have absent := behind?_eq_none h
  unfold operands?
  split
  · rfl
  · split
    · rfl
    · rename_i found
      rw [absent] at found
      contradiction

theorem operands?_eq_none_of_stops {separator s : List Char} (stops : Stops Char.isDigit s) :
    operands? separator s = none := by
  have none := takeWhile_of_stops stops
  unfold operands?
  split
  · rfl
  · rename_i left
    rw [left] at none
    contradiction

/-- A text without the first character of the separator holds no left operand, unless the separator
follows it. -/
theorem operands?_append_eq_none {c : Char} {u rest : List Char} (separator : List Char)
    (absent : c ∉ u) (stops : Stops Char.isDigit rest) (other : ¬ c :: separator <+: rest) :
    operands? (c :: separator) (u ++ rest) = none := by
  apply operands?_eq_none_of_not_prefix
  rw [List.dropWhile_append, dropWhile_of_stops stops]
  -- behind the digits follows `rest`, or a character of `u`, which does not begin the separator
  cases last : u.dropWhile Char.isDigit with
  | nil => exact other
  | cons d v =>
    have member : d ∈ u := (List.dropWhile_sublist Char.isDigit).mem (by simp [last])
    have differ : c ≠ d := by
      rintro rfl
      exact absent member
    simp [differ]

/-- Two runs of digits are found with the separator between them. -/
theorem operands?_eq_some (separator rest : List Char) {a b : List Char} (nonemptyLeft : a ≠ [])
    (digitsLeft : a.all Char.isDigit = true) (stopsLeft : ∀ s, Stops Char.isDigit (separator ++ s))
    (nonemptyRight : b ≠ []) (digitsRight : b.all Char.isDigit = true)
    (stops : Stops Char.isDigit rest) :
    ∃ o, operands? separator (a ++ (separator ++ (b ++ rest))) = some o ∧
      o.left = a ∧ o.right = b ∧ o.rest = rest := by
  have left := takeWhile_append_of_stops digitsLeft (stopsLeft (b ++ rest))
  have behindLeft := dropWhile_append_of_stops digitsLeft (stopsLeft (b ++ rest))
  have right := takeWhile_append_of_stops digitsRight stops
  have behindRight := dropWhile_append_of_stops digitsRight stops
  unfold operands?
  split
  · rename_i none
    exact absurd (left.symm.trans none) nonemptyLeft
  · rename_i d ds first
    have same : d :: ds = a := first.symm.trans left
    split
    · rename_i none
      simp [behindLeft] at none
    · rename_i behind found
      rw [behindLeft, behind?_append, Option.some.injEq] at found
      subst found
      rw [right]
      cases b with
      | nil => contradiction
      | cons d' ds' => exact ⟨_, rfl, same, rfl, behindRight⟩

/-! ## Boundaries -/

/-- The text begins, if at all, with an operator or a parenthesis, and not with two slashes. -/
def Boundary (s : List Char) : Prop :=
  (∀ c ∈ s.head?, c ∈ ['+', '-', '*', '/', '(', ')']) ∧ ¬ ['/', '/'] <+: s

namespace Boundary

variable {s : List Char}

theorem nil : Boundary [] := ⟨by simp, by simp⟩

theorem cons {c : Char} (h : c ∈ ['+', '-', '*', '(', ')']) : Boundary (c :: s) := by
  simp only [List.mem_cons, List.not_mem_nil, or_false] at h
  rcases h with rfl | rfl | rfl | rfl | rfl <;> exact ⟨by simp, by simp⟩

theorem slash {c : Char} (h : c ≠ '/') : Boundary ('/' :: c :: s) :=
  ⟨by simp, by simp [h.symm]⟩

theorem ne_of_cons {c d : Char} (h : Boundary (c :: s))
    (other : d ∉ ['+', '-', '*', '/', '(', ')']) : c ≠ d := by
  rintro rfl
  exact other (h.1 c rfl)

theorem stops (h : Boundary s) : Stops Char.isDigit s := by
  intro c first
  have symbol := h.1 c first
  simp only [List.mem_cons, List.not_mem_nil, or_false] at symbol
  rcases symbol with rfl | rfl | rfl | rfl | rfl | rfl <;> rfl

theorem not_caret (h : Boundary s) : ¬ ['^'] <+: s := by
  cases s with
  | nil => simp
  | cons c s =>
    have differ : c ≠ '^' := h.ne_of_cons (by simp)
    simp [differ.symm]

end Boundary

/-- The pattern is not found at a boundary, and not before a boundary in a text without `c`. -/
structure Spares (pattern : Pattern) (c : Char) : Prop where
  none_of_boundary : ∀ {d s}, Boundary (d :: s) → pattern (d :: s) = none
  substitute_append : ∀ {u rest}, c ∉ u → Boundary rest →
    pattern.substitute (u ++ rest) = u ++ pattern.substitute rest

theorem Spares.substitute_cons {pattern : Pattern} {c d : Char} {s : List Char}
    (h : Spares pattern c) (boundary : Boundary (d :: s)) :
    pattern.substitute (d :: s) = d :: pattern.substitute s :=
  Pattern.substitute_of_none (h.none_of_boundary boundary)

theorem Spares.substitute_eq_self {pattern : Pattern} {c : Char} (h : Spares pattern c)
    {u : List Char} (absent : c ∉ u) : pattern.substitute u = u := by
  simpa using h.substitute_append absent .nil

/-! ## The four patterns -/

theorem wholeDivision_eq_none_of_stops {s : List Char} (stops : Stops Char.isDigit s) :
    wholeDivision s = none := by
  rw [wholeDivision, operands?_eq_none_of_stops stops, Option.map_none]

theorem digitPower_eq_none_of_stops {s : List Char} (stops : Stops Char.isDigit s) :
    digitPower s = none := by
  rw [digitPower, operands?_eq_none_of_stops stops, Option.map_none]

theorem wholeDivision_spares : Spares wholeDivision '/' where
  none_of_boundary boundary := wholeDivision_eq_none_of_stops boundary.stops
  substitute_append absent boundary := by
    apply Pattern.substitute_append_of_not_mem _ absent
    intro d v absent
    have none := operands?_append_eq_none ['/'] absent boundary.stops boundary.2
    exact (congrArg (Option.map _) none).trans (Option.map_none _)

theorem digitPower_spares : Spares digitPower '^' where
  none_of_boundary boundary := digitPower_eq_none_of_stops boundary.stops
  substitute_append absent boundary := by
    apply Pattern.substitute_append_of_not_mem _ absent
    intro d v absent
    have none := operands?_append_eq_none [] absent boundary.stops boundary.not_caret
    exact (congrArg (Option.map _) none).trans (Option.map_none _)

theorem doubleSlash_eq_none {s : List Char} (h : ¬ ['/', '/'] <+: s) : doubleSlash s = none := by
  have absent := behind?_eq_none h
  unfold doubleSlash
  split
  · rfl
  · rename_i found
    rw [show behind? "//".toList s = none from absent] at found
    contradiction

/-- A double slash lies within a text without slashes or behind it, never across its end. -/
theorem doubleSlash_substitute_append {u rest : List Char} (absent : '/' ∉ u) :
    doubleSlash.substitute (u ++ rest) = u ++ doubleSlash.substitute rest := by
  apply Pattern.substitute_append_of_not_mem _ absent
  intro d v absent
  have differ : '/' ≠ d := List.ne_of_not_mem_cons absent
  exact doubleSlash_eq_none (by simp [differ])

theorem doubleSlash_spares : Spares doubleSlash '/' where
  none_of_boundary boundary := doubleSlash_eq_none boundary.2
  substitute_append absent _ := doubleSlash_substitute_append absent

theorem openFloor_eq_none {c : Char} {s : List Char} (h : c ≠ 'M') : openFloor (c :: s) = none := by
  obtain ⟨word, begins⟩ : ∃ word, floorBegins = 'M' :: word := ⟨_, rfl⟩
  have absent : behind? floorBegins (c :: s) = none := by
    rw [begins]
    exact behind?_eq_none (by simp [h.symm])
  unfold openFloor
  split
  · rfl
  · rename_i found
    rw [absent] at found
    contradiction

theorem openFloor_spares : Spares openFloor 'M' where
  none_of_boundary boundary := openFloor_eq_none (boundary.ne_of_cons (by simp))
  substitute_append absent _ := by
    apply Pattern.substitute_append_of_not_mem _ absent
    intro d v absent
    exact openFloor_eq_none (List.ne_of_not_mem_cons absent).symm

end Shorthand

end Reckoner
