import Reckoner.Expression.Basic
import Reckoner.Proofs.Text.Tokens

/-!
# The grammar of expressions

`Derives` states the grammar as rules, without a reader:

* a chain is operands of its level with operators of that level between them; an additive chain is
  an expression, its operands are the multiplicative chains, and the operands of those are factors;
* a factor is a numeral, a signed factor, an expression in parentheses, or a name with a call behind
  it;
* a call has its argument in parentheses or, without any, one factor; a power has its exponent
  behind a comma in the parentheses or else as one more factor.

Written like that alone the grammar is ambiguous, because a closing parenthesis may be missing and a
call needs no parentheses. What decides is that nothing may be passed over that could be taken: an
operator by its chain, a closing parenthesis, and the comma of a power by what was opened last.
-/

namespace Reckoner

/-! ## Words -/

theorem Sign.symbol_ne_space (mark : Sign) : mark.symbol ≠ ' ' := by
  cases mark <;> decide

theorem Operator.symbol_ne_space (op : Operator) : op.symbol ≠ ' ' := by
  cases op <;> decide

/-- A numeral is not empty and does not begin with a space. -/
theorem Numeral.exists_run_eq_cons (numeral : Numeral) :
    ∃ c word, c ≠ ' ' ∧ numeral.run = c :: word := by
  have digit := numeral.any_isDigit
  have all := numeral.all_isDigitOrDot
  cases shape : numeral.run with
  | nil => simp [shape] at digit
  | cons c word =>
    refine ⟨c, word, ?_, rfl⟩
    rintro rfl
    simp [shape, isDigitOrDot] at all

theorem Numeral.token_iff {numeral : Numeral} {s rest : List Char} :
    Token numeral.run s rest ↔ skipSpaces s = numeral.run ++ rest := by
  obtain ⟨c, word, noSpace, shape⟩ := numeral.exists_run_eq_cons
  rw [shape, Reckoner.token_iff noSpace]

theorem Builtin.token_iff {function : Builtin} {s rest : List Char} :
    Token function.name s rest ↔ skipSpaces s = function.name ++ rest := by
  cases function <;> exact Reckoner.token_iff (by decide)

/-! ## Rules -/

/-- What a stretch of text can be derived as. -/
inductive Part where
  | factor
  /-- A whole chain of the level. -/
  | chain (level : Level)
  /-- What follows the tree `left` up to the end of its chain. -/
  | tail (level : Level) (left : Expression)
  /-- What follows the name of a function. -/
  | call (function : Builtin)

/-- The operands of a chain. -/
def Level.operand : Level → Part
  | .additive => .chain .multiplicative
  | .multiplicative => .factor

namespace Grammar

/-- A closing parenthesis, which may be missing but not be passed over. -/
def Closes (s r : List Char) : Prop := Token [')'] s r ∨ ¬ Next ')' s ∧ r = s

/-- The text `s` up to its rest `r` writes the tree `t` as the given part, with factors nested `n`
deep. -/
inductive Derives : Nat → Part → List Char → Expression → List Char → Prop
  | chain {m n level s first rest t r} :
      Derives m level.operand s first rest →
      Derives n (.tail level first) rest t r →
      Derives (max m n) (.chain level) s t r
  | done {level left s} :
      (∀ op : Operator, op.level = level → ¬ Next op.symbol s) →
      Derives 0 (.tail level left) s left s
  | more {m n level op left right s a rest t r} :
      op.level = level → Token [op.symbol] s a →
      Derives m level.operand a right rest →
      Derives n (.tail level (.binary op left right)) rest t r →
      Derives (max m n) (.tail level left) s t r
  | number {numeral s r} :
      Token numeral.run s r → Stops isDigitOrDot r →
      Derives 1 .factor s (.literal numeral) r
  | sign {n mark s a t r} :
      Token [mark.symbol] s a → Derives n .factor a t r →
      Derives (n + 1) .factor s (.signed mark t) r
  | group {n s a t rest r} :
      Token ['('] s a → Derives n (.chain .additive) a t rest → Closes rest r →
      Derives (n + 1) .factor s t r
  | application {n function s a t r} :
      Token function.name s a → Derives n (.call function) a t r →
      Derives (n + 1) .factor s t r
  | floorGroup {n s a t rest r} :
      Token ['('] s a → Derives n (.chain .additive) a t rest → Closes rest r →
      Derives n (.call .floor) s (.floor t) r
  | floorFactor {n s t r} :
      ¬ Next '(' s → Derives n .factor s t r →
      Derives n (.call .floor) s (.floor t) r
  | powerPair {m n s a b x y rest rest' r} :
      Token ['('] s a → Derives m (.chain .additive) a x rest →
      Token [','] rest b → Derives n (.chain .additive) b y rest' → Closes rest' r →
      Derives (max m n) (.call .power) s (.power x y) r
  | powerGroup {m n s a b x y rest r} :
      Token ['('] s a → Derives m (.chain .additive) a x rest →
      ¬ Next ',' rest → Closes rest b → Derives n .factor b y r →
      Derives (max m n) (.call .power) s (.power x y) r
  | powerFactors {m n s x y rest r} :
      ¬ Next '(' s → Derives m .factor s x rest → Derives n .factor rest y r →
      Derives (max m n) (.call .power) s (.power x y) r

/-- The whole text, up to spaces at its end, writes the tree as an expression whose factors nest `n`
deep. -/
def Writes (n : Nat) (s : List Char) (t : Expression) : Prop :=
  ∃ r, Derives n (.chain .additive) s t r ∧ Blank r

end Grammar

end Reckoner
