import Reckoner.Proofs.Expression.Parts

/-!
# The depth as a counter

`Reader.read` tells each part how much room it has. Here the reader keeps one counter of the open
factors instead, which every factor raises when it begins and lowers when it ends. `step` is one
step of that reader, and `run.Counts limit` says that `run` takes this step at every part. Up to the
limit only one reader does (`counts_iff`): it answers as `read` does, and it leaves the counter
where it found it, also where it fails.
-/

namespace Reckoner.Reader

variable {α β : Type} {limit count : Nat}

/-- A reading step that works on the counter. Where it fails, the counter stays as it is then. -/
abbrev Counting (α : Type) := ExceptT Setback (StateM Nat) α

/-- A factor around what is read inside it: the counter goes up in front and down behind, whatever
comes of the inside. -/
def Counting.nested (limit : Nat) (s : List Char) (inside : Counting α) : Counting α :=
  ExceptT.mk fun count =>
    if count = limit then (.error ⟨.nestingTooDeep limit, s⟩, count)
    else
      let (answer, after) := inside.run.run (count + 1)
      (answer, after - 1)

/-- A reader with a counter: what it makes of a part at the front of a text. -/
abbrev CountingReader := Part → List Char → Counting (Expression × List Char)

/-- What stands inside a factor. -/
def CountingReader.atom (run : CountingReader) (s : List Char) :
    Counting (Expression × List Char) :=
  match Opening.ofText s with
  | .sign mark rest => do
    let (operand, behind) ← run .factor rest
    return (.signed mark operand, behind)
  | .parenthesis rest => do
    let (inner, behind) ← run (.chain .additive) rest
    return (inner, closing behind)
  | .builtin function rest => run (.call function) rest
  | .number digits rest =>
    match Numeral.ofRun? digits with
    | some numeral => return (.literal numeral, rest)
    | none => throw ⟨.invalidNumber digits, rest⟩
  | .word letters rest => do
    let (_, behind) ← run (.call .floor) rest
    throw ⟨.unknownFunction letters, behind⟩
  | .other c rest => throw ⟨.unexpectedCharacter c, rest⟩
  | .nothing => throw ⟨.abruptEnd, []⟩

/-- One step of the reader with a counter; `run` reads the parts that the step needs. -/
def CountingReader.step (limit : Nat) (run : CountingReader) : CountingReader
  | .chain level, s => do
    let (first, rest) ← run level.operand s
    run (.tail level first) rest
  | .tail level left, s =>
    match skipSpaces s with
    | [] => return (left, [])
    | c :: rest =>
      match level.operator? c with
      | none => return (left, c :: rest)
      | some operator => do
        let (right, behind) ← run level.operand rest
        run (.tail level (.binary operator left right)) behind
  | .factor, s => .nested limit s (run.atom s)
  | .call .floor, s =>
    match accept? '(' s with
    | none => do
      let (argument, rest) ← run .factor (skipSpaces s)
      return (.floor argument, rest)
    | some inside => do
      let (argument, rest) ← run (.chain .additive) inside
      return (.floor argument, closing rest)
  | .call .power, s =>
    match accept? '(' s with
    | none => do
      let (base, rest) ← run .factor (skipSpaces s)
      let (exponent, behind) ← run .factor rest
      return (.power base exponent, behind)
    | some inside => do
      let (base, rest) ← run (.chain .additive) inside
      match accept? ',' rest with
      | some second =>
        let (exponent, behind) ← run (.chain .additive) second
        return (.power base exponent, closing behind)
      | none =>
        let (exponent, behind) ← run .factor (closing rest)
        return (.power base exponent, behind)

/-- The reader takes the step at every part, from every count up to the limit. -/
def CountingReader.Counts (limit : Nat) (run : CountingReader) : Prop :=
  ∀ part s count, count ≤ limit →
    (run part s).run.run count = (run.step limit part s).run.run count

/-! ## Steps that leave the counter alone -/

/-- From this count the step gives the answer and leaves the counter where it was. -/
def Steady (count : Nat) (step : Counting α) (answer : Except Setback α) : Prop :=
  step.run.run count = (answer, count)

theorem steady_pure (a : α) : Steady count (pure a) (.ok a) := rfl

theorem steady_throw (setback : Setback) :
    Steady count (throw setback : Counting α) (.error setback) := rfl

theorem run_bind (step : Counting α) (next : α → Counting β) (count : Nat) :
    (step >>= next).run.run count =
      match step.run.run count with
      | (.ok a, after) => (next a).run.run after
      | (.error setback, after) => (.error setback, after) := by
  show (ExceptT.bindCont next (step.run.run count).1).run (step.run.run count).2 = _
  rcases step.run.run count with ⟨setback | a, after⟩
  · rfl
  · rfl

theorem Steady.bind {step : Counting α} {answer : Except Setback α} {next : α → Counting β}
    {f : α → Except Setback β} (h : Steady count step answer)
    (h' : ∀ a, answer = .ok a → Steady count (next a) (f a)) :
    Steady count (step >>= next) (answer.bind f) := by
  rw [Steady, run_bind, h]
  cases answer with
  | ok a => exact h' a rfl
  | error setback => rfl

theorem Steady.map {step : Counting α} {answer : Except Setback α} (f : α → β)
    (h : Steady count step answer) :
    Steady count (do return f (← step)) (answer.map f) := by
  have steady := h.bind fun a _ => steady_pure (f a)
  cases answer with
  | ok a => exact steady
  | error setback => exact steady

theorem steady_nested_full (s : List Char) (inside : Counting α) :
    Steady limit (.nested limit s inside) (.error ⟨.nestingTooDeep limit, s⟩) :=
  if_pos rfl

/-- What is steady one level deeper is steady inside a factor. -/
theorem Steady.nested {inside : Counting α} {answer : Except Setback α} {s : List Char}
    (below : count ≠ limit) (h : Steady (count + 1) inside answer) :
    Steady count (.nested limit s inside) answer := by
  have run : (Counting.nested limit s inside).run.run count =
      if count = limit then (.error ⟨.nestingTooDeep limit, s⟩, count)
      else ((inside.run.run (count + 1)).1, (inside.run.run (count + 1)).2 - 1) := rfl
  rw [Steady, run, if_neg below, h, Nat.add_sub_cancel]

/-! ## One reader -/

/-- At the depth that leaves this much room, the step answers as `read` does. -/
def Agrees (limit room : Nat) (step : Counting (Expression × List Char)) (part : Part)
    (s : List Char) : Prop :=
  ∀ count, count + room = limit → Steady count step (read limit room part s)

/-- Inside a factor there is room for one less, and one more is open. -/
theorem agrees_factor {run : CountingReader} {room : Nat} {s : List Char}
    (h : ∀ count, count + room = limit →
      Steady count (run.atom s) (read limit (room + 1) .factor s)) :
    Agrees limit (room + 1) (run.step limit .factor s) .factor s := by
  intro count within
  exact .nested (by omega) (h (count + 1) (by omega))

/-- A step answers as `read` does if that is true of the reader at the tasks which this one enters:
a step asks for nothing else. -/
theorem CountingReader.agrees_step {run : CountingReader} {room : Nat} {part : Part} {s : List Char}
    (entered : ∀ next, Enters limit ⟨room, part, s⟩ next →
      Agrees limit next.room (run next.part next.text) next.part next.text) :
    Agrees limit room (run.step limit part s) part s := by
  -- only the cases of the induction are used, since nothing is assumed of other steps
  induction room, part, s using read_induct limit with
  | chain room level s =>
    intro count within
    rw [read_chain]
    exact (entered _ .first count within).bind fun p first => entered _ (.tail first) count within
  | done room level left s none =>
    intro count _
    rw [read_tail_done none, step]
    split
    · rename_i ahead
      rw [ahead]
      exact steady_pure _
    · rename_i c rest ahead
      rw [none c rest ahead, ahead]
      exact steady_pure _
  | more room op left s rest ahead =>
    intro count within
    have found : op.level.operator? op.symbol = some op := Level.operator?_eq_some_iff.2 ⟨rfl, rfl⟩
    rw [read_tail_more ahead rfl]
    simp only [step, ahead, found]
    exact (entered _ (.right ahead) count within).bind fun p right =>
      entered _ (.further ahead right) count within
  | full s =>
    intro count within
    subst within
    rw [read_factor_zero]
    exact steady_nested_full s _
  | sign room s mark rest opened =>
    refine agrees_factor fun count within => ?_
    rw [read_factor_succ, atom, opened]
    exact (entered _ (.signed opened) count within).map _
  | parenthesis room s rest opened =>
    refine agrees_factor fun count within => ?_
    rw [read_factor_succ, atom, opened]
    exact (entered _ (.inside opened) count within).map _
  | builtin room s function rest opened =>
    refine agrees_factor fun count within => ?_
    rw [read_factor_succ, atom, opened]
    exact entered _ (.call opened) count within
  | number room s digits rest opened =>
    refine agrees_factor fun count _ => ?_
    rw [read_factor_succ, atom, opened]
    cases numeral : Numeral.ofRun? digits with
    | some n => simp only [numeral]; exact steady_pure _
    | none => simp only [numeral]; exact steady_throw _
  | word room s letters rest opened =>
    refine agrees_factor fun count within => ?_
    rw [read_factor_succ, atom, opened]
    exact (entered _ (.unknown opened) count within).bind fun p _ => steady_throw _
  | other room s c rest opened =>
    refine agrees_factor fun count _ => ?_
    rw [read_factor_succ, atom, opened]
    exact steady_throw _
  | nothing room s opened =>
    refine agrees_factor fun count _ => ?_
    rw [read_factor_succ, atom, opened]
    exact steady_throw _
  | floorGroup room s inside opened =>
    intro count within
    rw [read_call_floor, step, opened]
    exact (entered _ (.group opened) count within).map _
  | floorFactor room s opened =>
    intro count within
    rw [read_call_floor, step, opened]
    exact (entered _ (.bare opened) count within).map _
  | powerGroup room s inside opened =>
    intro count within
    rw [read_call_power, step, opened]
    refine (entered _ (.group opened) count within).bind fun p first => ?_
    cases separated : accept? ',' p.2 with
    | some behind =>
      simp only [separated]
      exact (entered _ (.second opened first separated) count within).map _
    | none =>
      simp only [separated]
      exact (entered _ (.exponent opened first separated) count within).map _
  | powerFactors room s opened =>
    intro count within
    rw [read_call_power, step, opened]
    exact (entered _ (.bare opened) count within).bind fun p first =>
      (entered _ (.bareExponent opened first) count within).map _

/-- Up to the limit there is one reader with a counter. It answers as the reader with room for what
is left of the limit, and the counter is back where it was. -/
theorem CountingReader.counts_iff {run : CountingReader} :
    run.Counts limit ↔ ∀ part s count, count ≤ limit →
      Steady count (run part s) (read limit (limit - count) part s) := by
  constructor
  · intro counts part s count le
    have agrees (task : Task) :
        Agrees limit task.room (run task.part task.text) task.part task.text := by
      induction task using Task.induct limit with
      | step task entered =>
        intro count within
        exact (counts _ _ count (by omega)).trans (agrees_step entered count within)
    exact agrees ⟨_, part, s⟩ count (Nat.add_sub_of_le le)
  · intro agrees part s count le
    refine (agrees part s count le).trans (agrees_step ?_ count (Nat.add_sub_of_le le)).symm
    intro next _ count within
    have same : limit - count = next.room := by omega
    exact same ▸ agrees _ _ count (by omega)

theorem CountingReader.exists_counts (limit : Nat) : ∃ run : CountingReader, run.Counts limit :=
  ⟨fun part s => ExceptT.mk fun count => (read limit (limit - count) part s, count),
    counts_iff.2 fun _ _ _ _ => rfl⟩

end Reckoner.Reader
