import Reckoner.Proofs.Grammar.Layout
import Reckoner.Shorthand.Expansion

/-!
# Formulas with shorthand

A `Formula` is an expression whose atoms may be the shorthand `a//b` and `a^b`. It is written
without spaces, in a `Spelling` of its shorthand: as it is typed, or with calls in place of it.
Written with calls it is the text of a `Layout` (`flatten_lexemes_layout`), whose tree has the value
of the formula (`value_tree`).
-/

namespace Reckoner

/-- A run of digits, as an operand of shorthand. -/
structure DigitRun where
  digits : List Char
  ne_nil : digits ≠ []
  all_isDigit : digits.all Char.isDigit = true

namespace DigitRun

theorem not_mem (a : DigitRun) {c : Char} (h : c.isDigit = false) : c ∉ a.digits :=
  not_mem_of_all a.all_isDigit h

theorem exists_eq_cons (a : DigitRun) : ∃ c s, a.digits = c :: s ∧ c ≠ '/' := by
  cases shape : a.digits with
  | nil => exact absurd shape a.ne_nil
  | cons c s =>
    refine ⟨c, s, rfl, ?_⟩
    rintro rfl
    exact a.not_mem (c := '/') rfl (by simp [shape])

theorem not_stops_append (a : DigitRun) (s : List Char) : ¬ Stops Char.isDigit (a.digits ++ s) := by
  intro stops
  have all := a.all_isDigit
  obtain ⟨c, rest, shape, -⟩ := a.exists_eq_cons
  rw [shape, List.cons_append, stops_cons_iff] at stops
  rw [shape, List.all_cons, stops] at all
  contradiction

/-- The numeral that a run of digits writes. -/
def numeral (a : DigitRun) : Numeral where
  run := a.digits
  all_isDigitOrDot := by
    refine List.all_eq_true.2 fun c member => ?_
    simp [isDigitOrDot, List.all_eq_true.1 a.all_isDigit c member]
  any_isDigit := by
    obtain ⟨c, s, shape, -⟩ := a.exists_eq_cons
    have member : c ∈ a.digits := by simp [shape]
    exact List.any_eq_true.2 ⟨c, member, List.all_eq_true.1 a.all_isDigit c member⟩
  count_dot_le := by
    rw [List.count_eq_zero.2 (a.not_mem rfl)]
    exact Nat.zero_le 1

end DigitRun

/-- The numeral of the factor that a written-out whole division begins with. -/
def onePointZero : Numeral := ⟨"1.0".toList, rfl, rfl, by decide⟩

theorem Shorthand.floorBegins_eq_call :
    floorBegins = Builtin.floor.name ++ '(' :: (onePointZero.run ++ ['*']) := rfl

theorem Shorthand.powerCall_eq_call (a b : List Char) :
    powerCall a b = Builtin.power.name ++ '(' :: (a ++ ',' :: (b ++ [')'])) := by
  have begins : "Math.pow(".toList = Builtin.power.name ++ ['('] := rfl
  unfold powerCall
  rw [begins]
  simp only [List.append_assoc, List.cons_append, List.nil_append]

/-- An expression with shorthand and with the parentheses of its text. -/
inductive Formula where
  | literal (numeral : Numeral)
  | wholeDivision (dividend divisor : DigitRun)
  | power (base exponent : DigitRun)
  | signed (sign : Sign) (operand : Formula)
  | binary (operator : Operator) (left right : Formula)
  | group (inner : Formula)

/-- How the shorthand of two runs of digits stands in a text. It does not begin with a slash, so it
does not join with a division in front of it. -/
structure Spelling where
  wholeDivision : DigitRun → DigitRun → List Char
  power : DigitRun → DigitRun → List Char
  wholeDivision_eq_cons : ∀ a b, ∃ c s, wholeDivision a b = c :: s ∧ c ≠ '/'
  power_eq_cons : ∀ a b, ∃ c s, power a b = c :: s ∧ c ≠ '/'

namespace Spelling

theorem exists_append_eq_cons (a : DigitRun) (u : List Char) :
    ∃ c s, a.digits ++ u = c :: s ∧ c ≠ '/' := by
  obtain ⟨c, s, shape, differ⟩ := a.exists_eq_cons
  exact ⟨c, s ++ u, by rw [shape, List.cons_append], differ⟩

/-- As it is typed. -/
def typed : Spelling where
  wholeDivision a b := a.digits ++ (['/', '/'] ++ b.digits)
  power a b := a.digits ++ (['^'] ++ b.digits)
  wholeDivision_eq_cons a _ := exists_append_eq_cons a _
  power_eq_cons a _ := exists_append_eq_cons a _

/-- With the whole divisions written out, but not the powers. -/
def halfWritten : Spelling where
  wholeDivision a b := Shorthand.flooredQuotient a.digits b.digits
  power a b := a.digits ++ (['^'] ++ b.digits)
  wholeDivision_eq_cons _ _ := ⟨'M', _, rfl, by simp⟩
  power_eq_cons a _ := exists_append_eq_cons a _

/-- With everything written out. -/
def written : Spelling where
  wholeDivision a b := Shorthand.flooredQuotient a.digits b.digits
  power a b := Shorthand.powerCall a.digits b.digits
  wholeDivision_eq_cons _ _ := ⟨'M', _, rfl, by simp⟩
  power_eq_cons _ _ := ⟨'M', _, rfl, by simp⟩

end Spelling

namespace Formula

/-- The formula without spaces, and with its shorthand in the given spelling. -/
def write (spelling : Spelling) : Formula → List Char
  | .literal numeral => numeral.run
  | .wholeDivision a b => spelling.wholeDivision a b
  | .power a b => spelling.power a b
  | .signed sign x => sign.symbol :: x.write spelling
  | .binary op x y => x.write spelling ++ op.symbol :: y.write spelling
  | .group x => '(' :: (x.write spelling ++ [')'])

/-- The formula with the parentheses that precedence and grouping to the left call for at a place,
besides its own. -/
def parenthesized : Formula → Place → Formula
  | .literal numeral, _ => .literal numeral
  | .wholeDivision a b, _ => .wholeDivision a b
  | .power a b, _ => .power a b
  | .signed sign x, _ => .signed sign (x.parenthesized .factor)
  | .binary op x y, place =>
    let whole :=
      .binary op (x.parenthesized op.level.place) (y.parenthesized op.level.operandPlace)
    if place.admits op then whole else .group whole
  | .group x, _ => .group (x.parenthesized .expression)

/-- The formula as it is typed. -/
def text (f : Formula) : List Char := (f.parenthesized .expression).write .typed

/-- The value of a formula. A whole division is the floor of a rounded quotient. -/
def value : Formula → Double
  | .literal numeral => numeral.value
  | .wholeDivision a b => (.ofFraction 1 1 * a.numeral.value / b.numeral.value : Double).floor
  | .power a b => a.numeral.value.pow b.numeral.value
  | .signed sign x => sign.apply x.value
  | .binary op x y => op.apply x.value y.value
  | .group x => x.value

/-- The formula with its shorthand written out as calls. -/
def layout : Formula → Layout
  | .literal numeral => .literal numeral
  | .wholeDivision a b =>
    .floor (.binary .division (.binary .multiplication (.literal onePointZero)
      (.literal a.numeral)) (.literal b.numeral))
  | .power a b => .power (.literal a.numeral) (.literal b.numeral)
  | .signed sign x => .signed sign x.layout
  | .binary op x y => .binary op x.layout y.layout
  | .group x => .group x.layout

/-- How deeply the factors nest once the shorthand is written out. -/
def nesting (f : Formula) : Nat := (f.parenthesized .expression).layout.nesting

/-- The expression that the formula stands for. -/
def tree (f : Formula) : Expression := (f.parenthesized .expression).layout.tree

theorem value_tree_layout (f : Formula) : f.layout.tree.value = f.value := by
  induction f with
  | literal numeral => rfl
  | wholeDivision a b =>
    -- ten tenths and one round to the same double
    have one : onePointZero.value = .ofFraction 1 1 := by decide +kernel
    simp only [layout, Layout.tree, Expression.value, Operator.apply, value, one]
  | power a b => rfl
  | signed sign x ih => simp only [layout, Layout.tree, Expression.value, value, ih]
  | binary op x y ihLeft ihRight =>
    simp only [layout, Layout.tree, Expression.value, value, ihLeft, ihRight]
  | group x ih => exact ih

theorem value_parenthesized (f : Formula) (place : Place) :
    (f.parenthesized place).value = f.value := by
  induction f generalizing place with
  | literal numeral => rfl
  | wholeDivision a b => rfl
  | power a b => rfl
  | signed sign x ih => simp only [parenthesized, value, ih]
  | binary op x y ihLeft ihRight =>
    simp only [parenthesized]
    split <;> simp only [value, ihLeft, ihRight]
  | group x ih => exact ih .expression

theorem value_tree (f : Formula) : f.tree.value = f.value := by
  rw [tree, value_tree_layout, value_parenthesized]

theorem fits_layout_parenthesized (f : Formula) (place : Place) :
    (f.parenthesized place).layout.Fits place := by
  induction f generalizing place with
  | literal numeral => trivial
  | wholeDivision a b => exact ⟨rfl, ⟨rfl, trivial, trivial⟩, trivial⟩
  | power a b => exact ⟨trivial, trivial⟩
  | signed sign x ih => exact ih .factor
  | binary op x y ihLeft ihRight =>
    simp only [parenthesized]
    split
    · rename_i admitted
      exact ⟨admitted, ihLeft _, ihRight _⟩
    · exact ⟨rfl, ihLeft _, ihRight _⟩
  | group x ih => exact ih .expression

/-- Without spaces, the lexemes of the layout make up the written-out text. -/
theorem flatten_lexemes_layout (f : Formula) : f.layout.lexemes.flatten = f.write .written := by
  induction f with
  | literal numeral => simp [layout, Layout.lexemes, write]
  | wholeDivision a b =>
    simp [layout, Layout.lexemes, write, Spelling.written, Shorthand.flooredQuotient,
      Shorthand.floorBegins_eq_call, Operator.symbol, DigitRun.numeral]
  | power a b =>
    simp [layout, Layout.lexemes, write, Spelling.written, Shorthand.powerCall_eq_call,
      DigitRun.numeral]
  | signed sign x ih => simp [layout, Layout.lexemes, write, ih]
  | binary op x y ihLeft ihRight => simp [layout, Layout.lexemes, write, ihLeft, ihRight]
  | group x ih => simp [layout, Layout.lexemes, write, ih]

/-- What a formula is written with does not join with a division in front of it. -/
theorem exists_write_eq_cons (spelling : Spelling) (f : Formula) :
    ∃ c s, f.write spelling = c :: s ∧ c ≠ '/' := by
  induction f with
  | literal numeral =>
    obtain ⟨c, s, -, shape⟩ := numeral.exists_run_eq_cons
    refine ⟨c, s, shape, ?_⟩
    rintro rfl
    have all := numeral.all_isDigitOrDot
    simp [shape, isDigitOrDot] at all
  | wholeDivision a b => exact spelling.wholeDivision_eq_cons a b
  | power a b => exact spelling.power_eq_cons a b
  | signed sign x _ => exact ⟨_, _, rfl, by cases sign <;> simp [Sign.symbol]⟩
  | binary op x y ih _ =>
    obtain ⟨c, s, shape, differ⟩ := ih
    exact ⟨c, _, by rw [write, shape, List.cons_append], differ⟩
  | group x _ => exact ⟨_, _, rfl, by simp⟩

end Formula

end Reckoner
