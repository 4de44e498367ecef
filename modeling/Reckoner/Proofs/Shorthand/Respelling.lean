import Reckoner.Proofs.Shorthand.Formula
import Reckoner.Proofs.Shorthand.Substitution

/-!
# Evaluation of formulas with shorthand

The four substitutions change nothing in a formula but how its shorthand is spelt: the first writes
out the whole divisions, the next two find nothing to change, and the last writes out the powers.
For each of them it is enough to look at a single piece of shorthand in front of a boundary
(`Respells`); one induction then carries the whole formula (`substitute_write`).
-/

namespace Reckoner

/-- What is recognised at the front of a text is replaced. -/
theorem Pattern.substitute_of_found {pattern : Pattern} {s replacement rest : List Char}
    (h : ∃ found, pattern s = some found ∧ found.replacement = replacement ∧ found.rest = rest) :
    pattern.substitute s = replacement ++ pattern.substitute rest := by
  obtain ⟨found, recognised, rfl, rfl⟩ := h
  cases s with
  | nil => exact absurd found.length_lt (Nat.not_lt_zero _)
  | cons c s => exact substitute_of_some recognised

namespace Shorthand

/-- In front of a boundary, the substitution takes shorthand from one spelling to another. -/
structure Respells (pattern : Pattern) (before after : Spelling) : Prop where
  wholeDivision : ∀ a b rest, Boundary rest →
    pattern.substitute (before.wholeDivision a b ++ rest) =
      after.wholeDivision a b ++ pattern.substitute rest
  power : ∀ a b rest, Boundary rest →
    pattern.substitute (before.power a b ++ rest) = after.power a b ++ pattern.substitute rest

theorem boundary_operator (op : Operator) (spelling : Spelling) (f : Formula) (rest : List Char) :
    Boundary (op.symbol :: (f.write spelling ++ rest)) := by
  obtain ⟨c, s, shape, differ⟩ := f.exists_write_eq_cons spelling
  cases op with
  | addition => exact .cons (by simp [Operator.symbol])
  | subtraction => exact .cons (by simp [Operator.symbol])
  | multiplication => exact .cons (by simp [Operator.symbol])
  | division =>
    -- the right operand does not make it a double slash
    rw [shape]
    exact .slash differ

/-- The induction is on the formula, for every text that may follow it: each part of a formula ends
at a boundary. -/
theorem substitute_write {pattern : Pattern} {c : Char} {before after : Spelling}
    (spares : Spares pattern c) (outside : isDigitOrDot c = false)
    (respells : Respells pattern before after) (f : Formula) :
    ∀ rest, Boundary rest →
      pattern.substitute (f.write before ++ rest) = f.write after ++ pattern.substitute rest := by
  induction f with
  | literal numeral =>
    intro rest boundary
    have absent : c ∉ numeral.run := by
      intro member
      have inside := List.all_eq_true.1 numeral.all_isDigitOrDot c member
      rw [outside] at inside
      contradiction
    exact spares.substitute_append absent boundary
  | wholeDivision a b => exact respells.wholeDivision a b
  | power a b => exact respells.power a b
  | signed sign x ih =>
    intro rest boundary
    have separated : Boundary (sign.symbol :: (x.write before ++ rest)) :=
      .cons (by cases sign <;> simp [Sign.symbol])
    rw [Formula.write, List.cons_append, spares.substitute_cons separated, ih rest boundary]
    rfl
  | binary op x y ihLeft ihRight =>
    intro rest boundary
    have separated := boundary_operator op before y rest
    calc pattern.substitute (x.write before ++ op.symbol :: y.write before ++ rest)
        = pattern.substitute (x.write before ++ op.symbol :: (y.write before ++ rest)) := by
          rw [List.append_assoc, List.cons_append]
      _ = x.write after ++ pattern.substitute (op.symbol :: (y.write before ++ rest)) :=
          ihLeft _ separated
      _ = x.write after ++ op.symbol :: (y.write after ++ pattern.substitute rest) := by
          rw [spares.substitute_cons separated, ihRight rest boundary]
      _ = x.write after ++ op.symbol :: y.write after ++ pattern.substitute rest := by
          rw [List.append_assoc, List.cons_append]
  | group x ih =>
    intro rest boundary
    have opened : Boundary ('(' :: (x.write before ++ ')' :: rest)) := .cons (by simp)
    have closed : Boundary (')' :: rest) := .cons (by simp)
    calc pattern.substitute ('(' :: (x.write before ++ [')']) ++ rest)
        = pattern.substitute ('(' :: (x.write before ++ ')' :: rest)) := by simp
      _ = '(' :: (x.write after ++ pattern.substitute (')' :: rest)) := by
          rw [spares.substitute_cons opened, ih _ closed]
      _ = '(' :: (x.write after ++ ')' :: pattern.substitute rest) := by
          rw [spares.substitute_cons closed]
      _ = '(' :: (x.write after ++ [')']) ++ pattern.substitute rest := by simp

/-- The same for a whole text. -/
theorem substitute_write_nil {pattern : Pattern} {c : Char} {before after : Spelling}
    (spares : Spares pattern c) (outside : isDigitOrDot c = false)
    (respells : Respells pattern before after) (f : Formula) :
    pattern.substitute (f.write before) = f.write after := by
  have whole := substitute_write spares outside respells f [] .nil
  rwa [List.append_nil, Pattern.substitute_nil, List.append_nil] at whole

/-! ## The four substitutions -/

theorem not_mem_power {a b : DigitRun} {c : Char} (noDigit : c.isDigit = false)
    (noCaret : c ≠ '^') :
    c ∉ a.digits ++ (['^'] ++ b.digits) := by
  simp [a.not_mem noDigit, b.not_mem noDigit, noCaret]

theorem wholeDivision_respells : Respells wholeDivision .typed .halfWritten where
  wholeDivision a b rest boundary := by
    apply Pattern.substitute_of_found
    obtain ⟨o, found, left, right, behind⟩ := operands?_eq_some ['/', '/'] rest
      a.ne_nil a.all_isDigit (fun s => stops_cons_iff.2 rfl) b.ne_nil b.all_isDigit boundary.stops
    rw [show Spelling.typed.wholeDivision a b ++ rest =
      a.digits ++ (['/', '/'] ++ (b.digits ++ rest)) by simp [Spelling.typed]]
    refine ⟨_, congrArg (Option.map _) found, ?_, behind⟩
    show flooredQuotient o.left o.right = flooredQuotient a.digits b.digits
    rw [left, right]
  power a b rest boundary :=
    wholeDivision_spares.substitute_append (not_mem_power rfl (by simp)) boundary

/-- The only slash of a written-out whole division is a single one. -/
theorem doubleSlash_respells : Respells doubleSlash .halfWritten .halfWritten where
  wholeDivision a b rest boundary := by
    obtain ⟨c, s, shape, differ⟩ := b.exists_eq_cons
    have single : Boundary ('/' :: (b.digits ++ [')'] ++ rest)) := by
      rw [shape]
      exact .slash differ
    have absentLeft : '/' ∉ floorBegins ++ a.digits := by
      rw [List.mem_append]
      exact not_or.2 ⟨by decide, a.not_mem rfl⟩
    have absentRight : '/' ∉ b.digits ++ [')'] := by simp [b.not_mem (c := '/') rfl]
    calc doubleSlash.substitute (flooredQuotient a.digits b.digits ++ rest)
        = doubleSlash.substitute
            (floorBegins ++ a.digits ++ '/' :: (b.digits ++ [')'] ++ rest)) := by
          simp [flooredQuotient]
      _ = floorBegins ++ a.digits ++ '/' :: (b.digits ++ [')'] ++ doubleSlash.substitute rest) := by
          rw [doubleSlash_spares.substitute_append absentLeft single,
            doubleSlash_spares.substitute_cons single,
            doubleSlash_spares.substitute_append absentRight boundary]
      _ = flooredQuotient a.digits b.digits ++ doubleSlash.substitute rest := by
          simp [flooredQuotient]
  power a b rest boundary :=
    doubleSlash_spares.substitute_append (not_mem_power rfl (by simp)) boundary

/-- A whole division that is closed already is replaced by itself. -/
theorem openFloor_respells : Respells openFloor .halfWritten .halfWritten where
  wholeDivision a b rest boundary := by
    apply Pattern.substitute_of_found
    -- the pattern takes the closing parenthesis along, and writes it again
    obtain ⟨o, operands, left, right, behind⟩ := operands?_eq_some ['/'] (')' :: rest)
      a.ne_nil a.all_isDigit (fun s => stops_cons_iff.2 rfl) b.ne_nil b.all_isDigit
      (stops_cons_iff.2 rfl)
    rw [show Spelling.halfWritten.wholeDivision a b ++ rest =
      floorBegins ++ (a.digits ++ (['/'] ++ (b.digits ++ ')' :: rest))) by
        simp [Spelling.halfWritten, flooredQuotient]]
    unfold openFloor
    split
    · rename_i absent
      simp at absent
    · rename_i inside found
      rw [behind?_append, Option.some.injEq] at found
      subst found
      refine ⟨_, congrArg (Option.map _) operands, ?_, ?_⟩
      · show flooredQuotient o.left o.right = flooredQuotient a.digits b.digits
        rw [left, right]
      · show dropParenthesis o.rest = rest
        rw [behind, dropParenthesis]
  power a b rest boundary :=
    openFloor_spares.substitute_append (not_mem_power rfl (by simp)) boundary

theorem digitPower_respells : Respells digitPower .halfWritten .written where
  wholeDivision a b rest boundary := by
    have absent : '^' ∉ flooredQuotient a.digits b.digits := by
      have begins : '^' ∉ floorBegins := by decide
      simp [flooredQuotient, begins, a.not_mem (c := '^') rfl, b.not_mem (c := '^') rfl]
    exact digitPower_spares.substitute_append absent boundary
  power a b rest boundary := by
    apply Pattern.substitute_of_found
    obtain ⟨o, found, left, right, behind⟩ := operands?_eq_some ['^'] rest
      a.ne_nil a.all_isDigit (fun s => stops_cons_iff.2 rfl) b.ne_nil b.all_isDigit boundary.stops
    rw [show Spelling.halfWritten.power a b ++ rest = a.digits ++ (['^'] ++ (b.digits ++ rest)) by
      simp [Spelling.halfWritten]]
    refine ⟨_, congrArg (Option.map _) found, ?_, behind⟩
    show powerCall o.left o.right = powerCall a.digits b.digits
    rw [left, right]

/-- Expansion writes out all shorthand of a formula and changes nothing else. -/
theorem expand_write (f : Formula) : expand (f.write .typed) = f.write .written := by
  rw [expand, substitute_write_nil wholeDivision_spares rfl wholeDivision_respells,
    substitute_write_nil doubleSlash_spares rfl doubleSlash_respells,
    substitute_write_nil openFloor_spares rfl openFloor_respells,
    substitute_write_nil digitPower_spares rfl digitPower_respells]

end Shorthand

namespace Formula

/-- A formula stands for its tree: that is what its text writes with all shorthand written out. -/
theorem writes_expand_text (f : Formula) :
    Grammar.Writes f.nesting (Shorthand.expand f.text) f.tree := by
  have spread : Spread (f.parenthesized .expression).layout.lexemes (Shorthand.expand f.text) := by
    rw [text, Shorthand.expand_write, ← flatten_lexemes_layout]
    exact .flatten _
  have writes := Grammar.writes_of_fits (f.fits_layout_parenthesized .expression) spread 0
  rwa [List.replicate_zero, List.append_nil] at writes

end Formula

/-- Shorthand binds tighter than the operators, so only the sum needs parentheses. -/
example :
    (Formula.binary .multiplication
      (.binary .addition (.literal onePointZero)
        (.wholeDivision ⟨['1', '0'], by simp, rfl⟩ ⟨['3'], by simp, rfl⟩))
      (.signed .negative (.power ⟨['2'], by simp, rfl⟩ ⟨['3'], by simp, rfl⟩))).text =
      "(1.0+10//3)*-2^3".toList := by
  decide

end Reckoner
