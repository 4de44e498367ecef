import Reckoner.Expression.Basic
import Reckoner.Expression.Opening
import Reckoner.Fault

/-!
# Reading expressions

The grammar, from the loosest binding to the tightest:

* an additive chain is multiplicative chains with `+` or `-` between them;
* a multiplicative chain is factors with `*` or `/` between them;
* a factor is a signed factor, an additive chain in parentheses, a numeral, or a function call;
* a call takes its argument in parentheses or, without any, one factor. The power function takes its
  exponent behind a comma inside the parentheses, or else as one more factor behind the argument.

Chains group to the left, and a closing parenthesis may be missing. A word in lowercase letters is
read like a call and refused only once its argument has been read.

Each function returns the tree together with the text that remains. That text is shorter than the
one it was given, which is what makes the recursion end; how deeply factors may nest is a separate
matter, counted down by `room`.
-/

namespace Reckoner

/-- A tree and the text behind it, which is shorter than `bound`. -/
structure Reading (bound : Nat) where
  tree : Expression
  rest : List Char
  length_lt : rest.length < bound

/-- The arguments of a call and the text behind them. The second can only be the exponent of a
power. -/
structure Arguments (bound : Nat) where
  first : Expression
  second? : Option Expression
  rest : List Char
  length_lt : rest.length < bound

/-- Why reading stopped, and the text before which it stood. -/
structure Setback where
  fault : Fault
  rest : List Char
deriving DecidableEq, Repr

namespace Reader

/-- A level stands above the levels that bind tighter; used to order the calls of the reader that do
not shorten the text. -/
def height : Level → Nat
  | .multiplicative => 0
  | .additive => 2

theorem height_multiplicative : height .multiplicative = 0 := rfl

theorem height_additive : height .additive = 2 := rfl

theorem height_le (level : Level) : height level ≤ 2 := by
  cases level <;> decide

/-- The text behind the comma in front of an exponent, where a call takes one and a comma is
there. -/
def exponent? (takesExponent : Bool) (s : List Char) : Option (List Char) :=
  if takesExponent then accept? ',' s else none

theorem length_lt_of_exponent?_eq_some {takesExponent : Bool} {s rest : List Char}
    (h : exponent? takesExponent s = some rest) : rest.length < s.length := by
  unfold exponent? at h
  split at h
  · exact length_lt_of_accept?_eq_some h
  · contradiction

mutual

/-- One operand of a chain of the given level. -/
def operand (limit room : Nat) (level : Level) (s : List Char) :
    Except Setback (Reading s.length) :=
  match level with
  | .additive => chain limit room .multiplicative s
  | .multiplicative => factor limit room s
termination_by 8 * s.length + 2 + height level
decreasing_by
  all_goals
    have := height_multiplicative
    have := height_additive
    omega

/-- Operands of one level with the operators of that level between them. -/
def chain (limit room : Nat) (level : Level) (s : List Char) :
    Except Setback (Reading s.length) := do
  let first ← operand limit room level s
  have := first.length_lt
  extend limit room level first.tree first.rest first.length_lt
termination_by 8 * s.length + 3 + height level
decreasing_by
  all_goals omega

/-- The chain that begins with the tree `left` and goes on with the text `s`: as long as an operator
of the level follows, it and its right operand are joined to what stands on the left. -/
def extend (limit room : Nat) (level : Level) {bound : Nat} (left : Expression) (s : List Char)
    (within : s.length < bound) : Except Setback (Reading bound) :=
  match ahead : skipSpaces s with
  | [] => .ok ⟨left, [], Nat.lt_of_le_of_lt (Nat.zero_le _) within⟩
  | c :: rest =>
    have shorter := length_lt_of_skipSpaces_eq_cons ahead
    match level.operator? c with
    | none => .ok ⟨left, c :: rest, Nat.lt_of_le_of_lt shorter within⟩
    | some operator => do
      let right ← operand limit room level rest
      have := right.length_lt
      extend limit room level (.binary operator left right.tree) right.rest
        (Nat.lt_trans right.length_lt (Nat.lt_trans shorter within))
termination_by 8 * s.length
decreasing_by
  all_goals
    have := height_le level
    omega

/-- One factor. Each factor inside another needs one more level of room. -/
def factor (limit room : Nat) (s : List Char) : Except Setback (Reading s.length) :=
  match room with
  | 0 => .error ⟨.nestingTooDeep limit, s⟩
  | room + 1 => atom limit room s
termination_by 8 * s.length + 1
decreasing_by
  all_goals omega

/-- What a factor consists of, with the room that is left inside it. -/
def atom (limit room : Nat) (s : List Char) : Except Setback (Reading s.length) :=
  match opened : Opening.ofText s with
  | .sign sign rest => do
    have shorter := Opening.length_lt_of_behind? (congrArg Opening.behind? opened)
    let operand ← factor limit room rest
    return ⟨.signed sign operand.tree, operand.rest, Nat.lt_trans operand.length_lt shorter⟩
  | .parenthesis rest => do
    have shorter := Opening.length_lt_of_behind? (congrArg Opening.behind? opened)
    let inner ← chain limit room .additive rest
    return ⟨inner.tree, closing inner.rest,
      Nat.lt_of_le_of_lt (length_closing_le _) (Nat.lt_trans inner.length_lt shorter)⟩
  | .builtin .floor rest => do
    have shorter := Opening.length_lt_of_behind? (congrArg Opening.behind? opened)
    let given ← arguments limit room false rest
    return ⟨.floor given.first, given.rest, Nat.lt_trans given.length_lt shorter⟩
  | .builtin .power rest => do
    have shorter := Opening.length_lt_of_behind? (congrArg Opening.behind? opened)
    let given ← arguments limit room true rest
    have := given.length_lt
    match given.second? with
    | some exponent =>
      return ⟨.power given.first exponent, given.rest, Nat.lt_trans given.length_lt shorter⟩
    | none =>
      let exponent ← factor limit room given.rest
      return ⟨.power given.first exponent.tree, exponent.rest,
        Nat.lt_trans exponent.length_lt (Nat.lt_trans given.length_lt shorter)⟩
  | .number run rest =>
    have shorter := Opening.length_lt_of_behind? (congrArg Opening.behind? opened)
    match Numeral.ofRun? run with
    | some numeral => .ok ⟨.literal numeral, rest, shorter⟩
    | none => .error ⟨.invalidNumber run, rest⟩
  | .word run rest => do
    have := Opening.length_lt_of_behind? (congrArg Opening.behind? opened)
    let given ← arguments limit room false rest
    .error ⟨.unknownFunction run, given.rest⟩
  | .other c rest => .error ⟨.unexpectedCharacter c, rest⟩
  | .nothing => .error ⟨.abruptEnd, []⟩
termination_by 8 * s.length
decreasing_by
  all_goals
    have := height_additive
    omega

/-- The arguments of a call. Only a call that `takesExponent` looks for a comma. -/
def arguments (limit room : Nat) (takesExponent : Bool) (s : List Char) :
    Except Setback (Arguments s.length) :=
  match opened : accept? '(' s with
  | none => do
    have le := length_skipSpaces_le s
    let only ← factor limit room (skipSpaces s)
    return ⟨only.tree, none, only.rest, Nat.lt_of_lt_of_le only.length_lt le⟩
  | some inside => do
    have shorter := length_lt_of_accept?_eq_some opened
    let first ← chain limit room .additive inside
    have := first.length_lt
    match separated : exponent? takesExponent first.rest with
    | none =>
      return ⟨first.tree, none, closing first.rest,
        Nat.lt_of_le_of_lt (length_closing_le _) (Nat.lt_trans first.length_lt shorter)⟩
    | some behind =>
      have comma := length_lt_of_exponent?_eq_some separated
      let second ← chain limit room .additive behind
      return ⟨first.tree, some second.tree, closing second.rest,
        Nat.lt_of_le_of_lt (length_closing_le _)
          (Nat.lt_trans second.length_lt
            (Nat.lt_trans comma (Nat.lt_trans first.length_lt shorter)))⟩
termination_by 8 * s.length + 2
decreasing_by
  all_goals
    have := height_additive
    omega

end

end Reader

/-- The expression that a whole text writes, with factors nested at most `limit` deep. -/
def Expression.read (limit : Nat) (s : List Char) : Except Fault Expression :=
  match Reader.chain limit limit .additive s with
  | .error setback => .error setback.fault
  | .ok reading =>
    match reading.rest with
    | [] => .ok reading.tree
    | c :: _ => .error (.trailingInput c)

end Reckoner
