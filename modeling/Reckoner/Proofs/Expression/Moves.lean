import Mathlib.Logic.Relation
import Reckoner.Proofs.Expression.Parts

/-!
# Where reading goes

The reader does three things to the text in front of it (`Moves`): it passes over spaces, over a
symbol behind them, and over whatever opens an operand. Where it ends is reached by such moves; and
where it is refused, some task has been refused at once that was entered on the way
(`Reader.traced_read`).

Statements about answers need no induction of their own because of this. What every move keeps holds
between the beginning of a text and the place where reading ends, and what every task hands on to
those it enters holds of the one that is refused (`Reader.exists_raises_of_read`).
-/

namespace Reckoner

/-! ## Moves -/

/-- The symbols that are passed over elsewhere than in front of an operand. -/
def innerSymbols : List Char := ['+', '-', '*', '/', '(', ')', ',']

/-- From the first text the reader goes on to the second at once. -/
inductive Moves : List Char → List Char → Prop
  | spaces {s} : Moves s (skipSpaces s)
  | symbol {c s r} : c ∈ innerSymbols → accept? c s = some r → Moves s r
  | opening {o s r} : Opening.ofText s = o → o.behind? = some r → Moves s r

/-- From the first text the reader comes to the second. -/
abbrev Reaches : List Char → List Char → Prop := Relation.ReflTransGen Moves

theorem Operator.symbol_mem_innerSymbols (op : Operator) : op.symbol ∈ innerSymbols := by
  cases op <;> decide

theorem reaches_closing (s : List Char) : Reaches s (closing s) := by
  rw [closing]
  cases found : accept? ')' s with
  | some rest => exact .single (.symbol (by decide) found)
  | none => exact .single .spaces

theorem reaches_operator {op : Operator} {s r : List Char} (ahead : skipSpaces s = op.symbol :: r) :
    Reaches s r :=
  .single (.symbol op.symbol_mem_innerSymbols (accept?_eq_some_iff.2 ahead))

namespace Reader

/-! ## Refusals -/

/-- The task is refused at once, or as soon as the argument of an unknown function has been read. -/
inductive Raises (limit : Nat) : Task → Setback → Prop
  | full {s} : Raises limit ⟨0, .factor, s⟩ ⟨.nestingTooDeep limit, s⟩
  | number {room s run rest} :
      Opening.ofText s = .number run rest → Numeral.ofRun? run = none →
      Raises limit ⟨room + 1, .factor, s⟩ ⟨.invalidNumber run, rest⟩
  | word {room s run rest t r} :
      Opening.ofText s = .word run rest → read limit room (.call .floor) rest = .ok (t, r) →
      Raises limit ⟨room + 1, .factor, s⟩ ⟨.unknownFunction run, r⟩
  | other {room s c rest} :
      Opening.ofText s = .other c rest →
      Raises limit ⟨room + 1, .factor, s⟩ ⟨.unexpectedCharacter c, rest⟩
  | nothing {room s} :
      Opening.ofText s = .nothing → Raises limit ⟨room + 1, .factor, s⟩ ⟨.abruptEnd, []⟩

/-! ## Answers -/

/-- The text in front of which an answer leaves the reader. -/
def remaining : Except Setback (Expression × List Char) → List Char
  | .ok (_, rest) => rest
  | .error setback => setback.rest

variable {limit room : Nat} {part : Part} {s r : List Char} {t : Expression} {setback : Setback}
variable {task next : Task}

/-- What an answer to a task goes back to: moves, or the refusal of a task that was entered. -/
def Traced (limit : Nat) (task : Task) : Except Setback (Expression × List Char) → Prop
  | .ok (_, r) => Reaches task.text r
  | .error setback =>
    ∃ origin, Relation.ReflTransGen (Enters limit) task origin ∧ Raises limit origin setback

namespace Traced

variable {x : Except Setback (Expression × List Char)}

theorem enter (h : Traced limit next x) (enters : Enters limit task next)
    (reaches : Reaches task.text next.text) : Traced limit task x := by
  cases x with
  | ok p => exact reaches.trans h
  | error setback =>
    obtain ⟨origin, entered, raises⟩ := h
    exact ⟨origin, .head enters entered, raises⟩

theorem map {f : Expression × List Char → Expression × List Char} (h : Traced limit task x)
    (h' : ∀ t r, Reaches r (f (t, r)).2) : Traced limit task (x.map f) := by
  cases x with
  | ok p => exact Relation.ReflTransGen.trans h (h' p.1 p.2)
  | error setback => exact h

theorem bind {f : Expression × List Char → Except Setback (Expression × List Char)}
    (h : Traced limit task x)
    (h' : ∀ t r, x = .ok (t, r) → Reaches task.text r → Traced limit task (f (t, r))) :
    Traced limit task (x.bind f) := by
  cases x with
  | ok p => exact h' p.1 p.2 rfl h
  | error setback => exact h

end Traced

/-- The induction is on what the reader reads. Each case says which task is entered next, and by
which moves the reader has come to its text. -/
theorem traced_read (limit room : Nat) (part : Part) (s : List Char) :
    Traced limit ⟨room, part, s⟩ (read limit room part s) := by
  induction room, part, s using read_induct limit with
  | chain room level s operand tail =>
    rw [read_chain]
    exact (operand.enter .first .refl).bind fun t r first reaches =>
      (tail t r first).enter (.tail first) reaches
  | done room level left s none =>
    rw [read_tail_done none]
    exact .single .spaces
  | more room op left s rest ahead operand tail =>
    rw [read_tail_more ahead rfl]
    have behind : Reaches s rest := reaches_operator ahead
    exact (operand.enter (.right ahead) behind).bind fun t r right reaches =>
      (tail t r right).enter (.further ahead right) reaches
  | full s =>
    rw [read_factor_zero]
    exact ⟨_, .refl, .full⟩
  | sign room s mark rest opened operand =>
    rw [read_factor_succ, opened]
    have behind : Reaches s rest := .single (.opening opened rfl)
    exact (operand.enter (.signed opened) behind).map fun _ _ => .refl
  | parenthesis room s rest opened inside =>
    rw [read_factor_succ, opened]
    have behind : Reaches s rest := .single (.opening opened rfl)
    exact (inside.enter (.inside opened) behind).map fun _ => reaches_closing
  | builtin room s function rest opened call =>
    rw [read_factor_succ, opened]
    exact call.enter (.call opened) (.single (.opening opened rfl))
  | number room s run rest opened =>
    rw [read_factor_succ, opened]
    cases valid : Numeral.ofRun? run with
    | some numeral =>
      simp only [valid]
      exact .single (.opening opened rfl)
    | none =>
      simp only [valid]
      exact ⟨_, .refl, .number opened valid⟩
  | word room s run rest opened call =>
    rw [read_factor_succ, opened]
    have behind : Reaches s rest := .single (.opening opened rfl)
    exact (call.enter (.unknown opened) behind).bind fun t r argument _ =>
      ⟨_, .refl, .word opened argument⟩
  | other room s c rest opened =>
    rw [read_factor_succ, opened]
    exact ⟨_, .refl, .other opened⟩
  | nothing room s opened =>
    rw [read_factor_succ, opened]
    exact ⟨_, .refl, .nothing opened⟩
  | floorGroup room s inside opened argument =>
    rw [read_call_floor, opened]
    have behind : Reaches s inside := .single (.symbol (by decide) opened)
    exact (argument.enter (.group opened) behind).map fun _ => reaches_closing
  | floorFactor room s opened argument =>
    rw [read_call_floor, opened]
    exact (argument.enter (.bare opened) (.single .spaces)).map fun _ _ => .refl
  | powerGroup room s inside opened base exponent =>
    rw [read_call_power, opened]
    have behind : Reaches s inside := .single (.symbol (by decide) opened)
    refine (base.enter (.group opened) behind).bind fun t r first reaches => ?_
    obtain ⟨second, factor⟩ := exponent t r first
    cases separated : accept? ',' r with
    | some rest =>
      have comma : Reaches s rest := reaches.tail (.symbol (by decide) separated)
      exact ((second rest separated).enter (.second opened first separated) comma).map
        fun _ => reaches_closing
    | none =>
      have closed : Reaches s (closing r) := reaches.trans (reaches_closing r)
      exact ((factor separated).enter (.exponent opened first separated) closed).map
        fun _ _ => .refl
  | powerFactors room s opened base exponent =>
    rw [read_call_power, opened]
    refine (base.enter (.bare opened) (.single .spaces)).bind fun t r first reaches => ?_
    exact ((exponent t r first).enter (.bareExponent opened first) reaches).map fun _ _ => .refl

theorem reaches_of_read (h : read limit room part s = .ok (t, r)) : Reaches s r := by
  have traced := traced_read limit room part s
  rwa [h] at traced

theorem Enters.reaches (h : Enters limit task next) : Reaches task.text next.text := by
  cases h with
  | first => exact .refl
  | tail first => exact reaches_of_read first
  | right ahead => exact reaches_operator ahead
  | further ahead right => exact (reaches_operator ahead).trans (reaches_of_read right)
  | signed opened | inside opened | call opened | unknown opened =>
    exact .single (.opening opened rfl)
  | group opened => exact .single (.symbol (by decide) opened)
  | bare _ => exact .single .spaces
  | second opened first separated =>
    exact .head (.symbol (by decide) opened)
      ((reaches_of_read first).tail (.symbol (by decide) separated))
  | exponent opened first _ =>
    exact .head (.symbol (by decide) opened) ((reaches_of_read first).trans (reaches_closing _))
  | bareExponent _ first => exact .head .spaces (reaches_of_read first)

theorem reaches_of_entered (h : Relation.ReflTransGen (Enters limit) task next) :
    Reaches task.text next.text := by
  induction h with
  | refl => exact .refl
  | tail _ enters ih => exact ih.trans enters.reaches

/-- Where a task is refused at once, the reader stands at its beginning or behind what has been
read. -/
theorem Raises.reaches (h : Raises limit task setback) : Reaches task.text setback.rest := by
  cases h with
  | full => exact .refl
  | number opened _ => exact .single (.opening opened rfl)
  | word opened argument => exact .head (.opening opened rfl) (reaches_of_read argument)
  | @other _ s c rest opened =>
    obtain ⟨same, -⟩ := Opening.ofText_eq_iff.1 opened
    exact same ▸ .single .spaces
  | @nothing _ s opened =>
    have trimmed : skipSpaces s = [] := Opening.ofText_eq_iff.1 opened
    exact trimmed ▸ .single .spaces

/-- What is left is reached in any case. -/
theorem reaches_remaining (limit room : Nat) (part : Part) (s : List Char) :
    Reaches s (remaining (read limit room part s)) := by
  have traced := traced_read limit room part s
  cases answer : read limit room part s with
  | ok p => exact reaches_of_read answer
  | error setback =>
    rw [answer] at traced
    obtain ⟨origin, entered, raises⟩ := traced
    exact (reaches_of_entered entered).trans raises.reaches

/-- What every task hands on to those that it enters holds of the one that is refused at once, if it
holds of the task that is read. -/
theorem exists_raises_of_read {P : Task → Prop}
    (enters : ∀ task next, P task → Enters limit task next → P next) (first : P ⟨room, part, s⟩)
    (refused : read limit room part s = .error setback) :
    ∃ origin, P origin ∧ Raises limit origin setback := by
  have traced := traced_read limit room part s
  rw [refused] at traced
  obtain ⟨origin, entered, raises⟩ := traced
  refine ⟨origin, ?_, raises⟩
  clear raises
  induction entered with
  | refl => exact first
  | tail _ entersNext ih => exact enters _ _ ih entersNext

end Reader

end Reckoner
