import Reckoner.Proofs.Decimal.Literal
import Reckoner.Proofs.Grammar.Layout

/-!
# What a text is worth

`Expression.Evaluates` says which double an expression is worth, with one rule for each kind of node
and no function that computes it: a number is the double for what its digits write, and every other
node is its operation on the doubles of its operands. There is exactly one such double
(`Expression.evaluates_iff`).

Together with the grammar this settles what a text is worth, whether it is any derivation that is
given (`readValue_eq_ok_iff`) or an expression that is written out (`readValue_of_spread_layout`).
-/

namespace Reckoner

namespace Expression

/-- The expression is worth the double. -/
inductive Evaluates : Expression → Double → Prop
  | literal {numeral v} :
      RoundsTo (exactValue numeral.run) v → Evaluates (.literal numeral) v
  | positive {e v} : Evaluates e v → Evaluates (.signed .positive e) v
  | negative {e v} : Evaluates e v → Evaluates (.signed .negative e) (-v)
  | addition {e f v w} :
      Evaluates e v → Evaluates f w → Evaluates (.binary .addition e f) (v + w)
  | subtraction {e f v w} :
      Evaluates e v → Evaluates f w → Evaluates (.binary .subtraction e f) (v - w)
  | multiplication {e f v w} :
      Evaluates e v → Evaluates f w → Evaluates (.binary .multiplication e f) (v * w)
  | division {e f v w} :
      Evaluates e v → Evaluates f w → Evaluates (.binary .division e f) (v / w)
  | floor {e v} : Evaluates e v → Evaluates (.floor e) v.floor
  | power {e f v w} : Evaluates e v → Evaluates f w → Evaluates (.power e f) (v.pow w)

variable {e : Expression} {v : Double}

theorem evaluates_value (e : Expression) : e.Evaluates e.value := by
  induction e with
  | literal numeral => exact .literal numeral.roundsTo_value
  | signed sign e ih =>
    cases sign with
    | positive => exact .positive ih
    | negative => exact .negative ih
  | binary op e f ihLeft ihRight =>
    cases op with
    | addition => exact .addition ihLeft ihRight
    | subtraction => exact .subtraction ihLeft ihRight
    | multiplication => exact .multiplication ihLeft ihRight
    | division => exact .division ihLeft ihRight
  | floor e ih => exact .floor ih
  | power e f ihBase ihExponent => exact .power ihBase ihExponent

theorem Evaluates.value_eq (h : e.Evaluates v) : e.value = v := by
  induction h with
  | @literal numeral v rounds => exact numeral.roundsTo_value.unique rounds
  | positive _ ih => exact ih
  | negative _ ih => rw [value, ih, Sign.apply]
  | addition _ _ left right => rw [value, left, right, Operator.apply]
  | subtraction _ _ left right => rw [value, left, right, Operator.apply]
  | multiplication _ _ left right => rw [value, left, right, Operator.apply]
  | division _ _ left right => rw [value, left, right, Operator.apply]
  | floor _ ih => rw [value, ih]
  | power _ _ base exponent => rw [value, base, exponent]

/-- The evaluation of expressions finds the one double that an expression is worth. -/
theorem evaluates_iff : e.Evaluates v ↔ e.value = v := by
  constructor
  · exact Evaluates.value_eq
  · rintro rfl
    exact e.evaluates_value

end Expression

/-- A text has a value exactly if the grammar writes an expression with it, with factors nested at
most as deep as the limit, and the value is what that expression is worth. -/
theorem readValue_eq_ok_iff (limit : Nat) (s : List Char) (v : Double) :
    readValue limit s = .ok v ↔ ∃ n t, n ≤ limit ∧ Grammar.Writes n s t ∧ t.Evaluates v := by
  constructor
  · intro h
    obtain ⟨n, t, le, writes, same⟩ := exists_writes_of_readValue h
    exact ⟨n, t, le, writes, Expression.evaluates_iff.2 same⟩
  · rintro ⟨n, t, le, writes, worth⟩
    rw [readValue_of_writes_of_le writes le, worth.value_eq]

/-- An expression that is written with the parentheses it needs, and with any spaces, is read as
itself: the result is the one double that it is worth if the limit leaves room for the nesting of
what is written, and a refusal for its depth if not. -/
theorem readValue_of_spread_layout (limit : Nat) (e : Expression) {s : List Char} (n : Nat)
    (spread : Spread (e.layout .expression).lexemes s) :
    ∃ v, (∀ w, e.Evaluates w ↔ w = v) ∧
      readValue limit (s ++ List.replicate n ' ') =
        if (e.layout .expression).nesting ≤ limit then .ok v
        else .error (.nestingTooDeep limit) := by
  have writes := Grammar.writes_of_fits (e.fits_layout .expression) spread n
  rw [e.tree_layout] at writes
  refine ⟨e.value, fun w => ?_, readValue_of_writes writes⟩
  rw [Expression.evaluates_iff, eq_comm]

/-- Two times the difference of three and minus four. -/
def productOfDifference : Expression :=
  .binary .multiplication (.literal ⟨['2'], rfl, rfl, by decide⟩)
    (.binary .subtraction (.literal ⟨['3'], rfl, rfl, by decide⟩)
      (.signed .negative (.literal ⟨['4'], rfl, rfl, by decide⟩)))

/-- It is worth fourteen. It is written with one pair of parentheses, and read if factors may nest
three deep. -/
theorem readValue_productOfDifference :
    Spread (productOfDifference.layout .expression).lexemes " 2*( 3- -4)".toList ∧
    productOfDifference.Evaluates (.ofFraction 14 1) ∧
    readValue 3 (" 2*( 3- -4)".toList ++ List.replicate 2 ' ') = .ok (.ofFraction 14 1) ∧
    readValue 2 (" 2*( 3- -4)".toList ++ List.replicate 2 ' ') = .error (.nestingTooDeep 2) := by
  have spread : Spread (productOfDifference.layout .expression).lexemes " 2*( 3- -4)".toList :=
    .cons 1 (.cons 0 (.cons 0 (.cons 1 (.cons 0 (.cons 1 (.cons 0 (.cons 0 .nil)))))))
  have worth : productOfDifference.Evaluates (.ofFraction 14 1) :=
    Expression.evaluates_iff.2 (by decide +kernel)
  obtain ⟨v, only, read⟩ := readValue_of_spread_layout 3 productOfDifference 2 spread
  obtain ⟨_, -, refused⟩ := readValue_of_spread_layout 2 productOfDifference 2 spread
  rw [if_pos (by decide), ← (only _).1 worth] at read
  rw [if_neg (by decide)] at refused
  exact ⟨spread, worth, read, refused⟩

end Reckoner
