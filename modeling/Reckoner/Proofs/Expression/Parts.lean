import Reckoner.Expression.Reader
import Reckoner.Proofs.Expression.Opening
import Reckoner.Proofs.Grammar.Derivation

/-!
# The reader, part by part

The reader carries a bound on the text that remains in the type of what it returns. `Reader.read` is
the same reader without that bound, with one case for each part of the grammar. The equations below
are all that later proofs use of it, and `Reader.read_induct` is the induction that goes with them:
what holds of a part if it holds of the parts that are read for it holds of every part.
-/

namespace Reckoner

section Results

variable {ε α β : Type} {x : Except ε α}

@[simp] theorem map_ok (f : α → β) (a : α) : (Except.ok a : Except ε α).map f = .ok (f a) := rfl

@[simp] theorem map_error (f : α → β) (e : ε) : (Except.error e).map f = .error e := rfl

@[simp] theorem bind_ok (f : α → Except ε β) (a : α) : (Except.ok a).bind f = f a := rfl

@[simp] theorem bind_error (f : α → Except ε β) (e : ε) : (Except.error e).bind f = .error e := rfl

theorem map_eq_ok_iff {f : α → β} {b : β} : x.map f = .ok b ↔ ∃ a, x = .ok a ∧ f a = b := by
  cases x <;> simp

theorem bind_eq_ok_iff {f : α → Except ε β} {b : β} :
    x.bind f = .ok b ↔ ∃ a, x = .ok a ∧ f a = .ok b := by
  cases x <;> simp

end Results

namespace Reader

/-- A reading without its bound. -/
def Reading.plain {bound : Nat} (reading : Reading bound) : Expression × List Char :=
  (reading.tree, reading.rest)

/-- Reads a part of the grammar at the front of a text: a tree and the text behind it. -/
def read (limit room : Nat) : Part → List Char → Except Setback (Expression × List Char)
  | .factor, s => (factor limit room s).map Reading.plain
  | .chain level, s => (chain limit room level s).map Reading.plain
  | .tail level left, s =>
    (extend limit room level left s (Nat.lt_succ_self s.length)).map Reading.plain
  | .call .floor, s =>
    (arguments limit room false s).map fun given => (.floor given.first, given.rest)
  | .call .power, s =>
    (arguments limit room true s).bind fun given =>
      match given.second? with
      | some exponent => .ok (.power given.first exponent, given.rest)
      | none => (factor limit room given.rest).map fun exponent =>
          (.power given.first exponent.tree, exponent.rest)

/-! ## What each part is made of -/

section Equations

variable {limit room : Nat} {level : Level} {left : Expression} {s : List Char}

/-- The bound of a chain that is being extended is of no consequence. -/
theorem extend_map_plain {b b' : Nat} (left : Expression) (s : List Char) (h : s.length < b)
    (h' : s.length < b') :
    (extend limit room level left s h).map Reading.plain =
      (extend limit room level left s h').map Reading.plain := by
  induction n : s.length using Nat.strongRecOn generalizing left s with
  | ind n ih =>
    rw [extend, extend]
    split
    · rfl
    · rename_i c rest ahead
      split
      · rfl
      · rename_i op _
        have shorter := length_lt_of_skipSpaces_eq_cons ahead
        cases operand limit room level rest with
        | error e => rfl
        | ok right =>
          -- the chain goes on with a larger tree and a shorter text
          have := right.length_lt
          exact ih right.rest.length (by omega) (.binary op left right.tree) right.rest _ _ rfl

theorem read_operand :
    read limit room level.operand s = (operand limit room level s).map Reading.plain := by
  cases level <;> rw [operand] <;> rfl

theorem read_chain :
    read limit room (.chain level) s =
      (read limit room level.operand s).bind fun p => read limit room (.tail level p.1) p.2 := by
  rw [read_operand, read, chain]
  cases operand limit room level s with
  | error e => rfl
  | ok first => exact extend_map_plain _ _ _ _

/-- A chain ends where no operator of its level follows. -/
theorem read_tail_done (h : ∀ c rest, skipSpaces s = c :: rest → level.operator? c = none) :
    read limit room (.tail level left) s = .ok (left, skipSpaces s) := by
  rw [read, extend]
  split
  · rename_i ahead
    rw [ahead]
    rfl
  · rename_i c rest ahead
    rw [h c rest ahead]
    exact congrArg (fun behind => Except.ok (left, behind)) ahead.symm

/-- A factor that no operator follows is a whole chain. -/
theorem read_chain_of_factor {t : Expression} {r : List Char}
    (factor : read limit room .factor s = .ok (t, r))
    (ends : ∀ (level : Level) c rest, skipSpaces r = c :: rest → level.operator? c = none) :
    read limit room (.chain .additive) s = .ok (t, skipSpaces r) := by
  have product : read limit room (.chain .multiplicative) s = .ok (t, skipSpaces r) := by
    rw [read_chain, Level.operand, factor, bind_ok, read_tail_done (ends .multiplicative)]
  have behind := ends .additive
  rw [← skipSpaces_skipSpaces r] at behind
  rw [read_chain, Level.operand, product, bind_ok, read_tail_done behind, skipSpaces_skipSpaces]

/-- A chain is refused where its first factor is. -/
theorem read_chain_of_factor_error {setback : Setback}
    (factor : read limit room .factor s = .error setback) :
    read limit room (.chain .additive) s = .error setback := by
  rw [read_chain, Level.operand, read_chain, Level.operand, factor, bind_error, bind_error]

theorem read_tail_more {op : Operator} {rest : List Char} (ahead : skipSpaces s = op.symbol :: rest)
    (same : op.level = level) :
    read limit room (.tail level left) s =
      (read limit room level.operand rest).bind fun p =>
        read limit room (.tail level (.binary op left p.1)) p.2 := by
  have found : level.operator? op.symbol = some op := Level.operator?_eq_some_iff.2 ⟨same, rfl⟩
  rw [read_operand, read, extend]
  split
  · rename_i nothing
    rw [nothing] at ahead
    contradiction
  · rename_i c behind begins
    rw [begins] at ahead
    cases ahead
    rw [found]
    cases operand limit room level rest with
    | error e => rfl
    | ok right => exact extend_map_plain _ _ _ _

theorem read_factor_zero : read limit 0 .factor s = .error ⟨.nestingTooDeep limit, s⟩ := by
  rw [read, factor]
  rfl

theorem read_factor_succ :
    read limit (room + 1) .factor s =
      match Opening.ofText s with
      | .sign mark rest =>
        (read limit room .factor rest).map fun p => (.signed mark p.1, p.2)
      | .parenthesis rest =>
        (read limit room (.chain .additive) rest).map fun p => (p.1, closing p.2)
      | .builtin function rest => read limit room (.call function) rest
      | .number run rest =>
        match Numeral.ofRun? run with
        | some numeral => .ok (.literal numeral, rest)
        | none => .error ⟨.invalidNumber run, rest⟩
      | .word run rest =>
        (read limit room (.call .floor) rest).bind fun p => .error ⟨.unknownFunction run, p.2⟩
      | .other c rest => .error ⟨.unexpectedCharacter c, rest⟩
      | .nothing => .error ⟨.abruptEnd, []⟩ := by
  rw [read, factor, atom]
  split <;> rename_i opened <;> simp only [opened]
  · rename_i mark rest
    rw [read]
    cases factor limit room rest <;> rfl
  · rename_i rest
    rw [read]
    cases chain limit room .additive rest <;> rfl
  · rename_i rest
    rw [read]
    cases arguments limit room false rest <;> rfl
  · rename_i rest
    rw [read]
    cases arguments limit room true rest with
    | error e => rfl
    | ok given =>
      obtain ⟨first, second?, behind, shorter⟩ := given
      cases second? with
      | some exponent => rfl
      | none =>
        -- the exponent is a factor of its own
        show Except.map _ (Except.bind (factor limit room behind) _) = Except.map _ _
        cases factor limit room behind <;> rfl
  · rename_i run rest
    cases Numeral.ofRun? run <;> rfl
  · rename_i run rest
    rw [read]
    cases arguments limit room false rest <;> rfl
  · rfl
  · rfl

theorem read_call_floor :
    read limit room (.call .floor) s =
      match accept? '(' s with
      | none => (read limit room .factor (skipSpaces s)).map fun p => (.floor p.1, p.2)
      | some inside =>
        (read limit room (.chain .additive) inside).map fun p => (.floor p.1, closing p.2) := by
  show (arguments limit room false s).map _ = _
  rw [arguments]
  split <;> rename_i opened <;> simp only [opened, read]
  · cases factor limit room (skipSpaces s) <;> rfl
  · rename_i inside
    cases chain limit room .additive inside <;> rfl

theorem read_call_power :
    read limit room (.call .power) s =
      match accept? '(' s with
      | none =>
        (read limit room .factor (skipSpaces s)).bind fun p =>
          (read limit room .factor p.2).map fun q => (.power p.1 q.1, q.2)
      | some inside =>
        (read limit room (.chain .additive) inside).bind fun p =>
          match accept? ',' p.2 with
          | some behind =>
            (read limit room (.chain .additive) behind).map fun q =>
              (.power p.1 q.1, closing q.2)
          | none =>
            (read limit room .factor (closing p.2)).map fun q => (.power p.1 q.1, q.2) := by
  show (arguments limit room true s).bind _ = _
  rw [arguments]
  split <;> rename_i opened <;> simp only [opened, read]
  · cases factor limit room (skipSpaces s) with
    | error e => rfl
    | ok only =>
      show Except.map _ (factor limit room only.rest) =
        Except.map _ ((factor limit room only.rest).map Reading.plain)
      cases factor limit room only.rest <;> rfl
  · rename_i inside
    cases chain limit room .additive inside with
    | error e => rfl
    | ok first =>
      dsimp only [map_ok, bind_ok, Reading.plain, bind]
      -- a power looks for a comma
      split
      · rename_i separated
        have missing : accept? ',' first.rest = none := separated
        simp only [missing]
        show Except.map _ (factor limit room (closing first.rest)) =
          Except.map _ ((factor limit room (closing first.rest)).map Reading.plain)
        cases factor limit room (closing first.rest) <;> rfl
      · rename_i behind separated
        have found : accept? ',' first.rest = some behind := separated
        simp only [found]
        cases chain limit room .additive behind <;> rfl

/-! ## Reading gets on -/

/-- Whatever is read as an operand takes at least one character. -/
theorem length_lt_of_read_operand {t : Expression} {r : List Char}
    (h : read limit room level.operand s = .ok (t, r)) : r.length < s.length := by
  rw [read_operand] at h
  obtain ⟨reading, -, same⟩ := map_eq_ok_iff.1 h
  cases same
  exact reading.length_lt

theorem length_lt_of_read_factor {t : Expression} {r : List Char}
    (h : read limit room .factor s = .ok (t, r)) : r.length < s.length := by
  change read limit room Level.multiplicative.operand s = _ at h
  exact length_lt_of_read_operand h

theorem length_lt_of_read_chain {t : Expression} {r : List Char}
    (h : read limit room (.chain level) s = .ok (t, r)) : r.length < s.length := by
  obtain ⟨reading, -, same⟩ := map_eq_ok_iff.1 h
  cases same
  exact reading.length_lt

end Equations

/-! ## What is read for a part -/

/-- Orders the parts that are read for one another at the same place. -/
def weight : Part → Nat
  | .factor | .tail _ _ => 0
  | .call _ | .chain .multiplicative => 1
  | .chain .additive => 2

theorem weight_operand_lt (level : Level) : weight level.operand < weight (.chain level) := by
  cases level <;> decide

theorem weight_le (part : Part) : weight part ≤ 2 := by
  rcases part with _ | (_ | _) | _ | _ <;> simp [weight]

/-- A part that is to be read at the front of a text, with room for so many factors inside one
another. -/
structure Task where
  room : Nat
  part : Part
  text : List Char

/-- The first task enters the second: it is read by reading that one, and perhaps others. What comes
later in a text is entered where what comes earlier has ended. -/
inductive Enters (limit : Nat) : Task → Task → Prop
  | first {room level s} : Enters limit ⟨room, .chain level, s⟩ ⟨room, level.operand, s⟩
  | tail {room level s t r} : read limit room level.operand s = .ok (t, r) →
      Enters limit ⟨room, .chain level, s⟩ ⟨room, .tail level t, r⟩
  | right {room left s rest} {op : Operator} : skipSpaces s = op.symbol :: rest →
      Enters limit ⟨room, .tail op.level left, s⟩ ⟨room, op.level.operand, rest⟩
  | further {room left s rest t r} {op : Operator} : skipSpaces s = op.symbol :: rest →
      read limit room op.level.operand rest = .ok (t, r) →
      Enters limit ⟨room, .tail op.level left, s⟩ ⟨room, .tail op.level (.binary op left t), r⟩
  | signed {room s mark rest} : Opening.ofText s = .sign mark rest →
      Enters limit ⟨room + 1, .factor, s⟩ ⟨room, .factor, rest⟩
  | inside {room s rest} : Opening.ofText s = .parenthesis rest →
      Enters limit ⟨room + 1, .factor, s⟩ ⟨room, .chain .additive, rest⟩
  | call {room s function rest} : Opening.ofText s = .builtin function rest →
      Enters limit ⟨room + 1, .factor, s⟩ ⟨room, .call function, rest⟩
  | unknown {room s word rest} : Opening.ofText s = .word word rest →
      Enters limit ⟨room + 1, .factor, s⟩ ⟨room, .call .floor, rest⟩
  | group {room function s inside} : accept? '(' s = some inside →
      Enters limit ⟨room, .call function, s⟩ ⟨room, .chain .additive, inside⟩
  | bare {room function s} : accept? '(' s = none →
      Enters limit ⟨room, .call function, s⟩ ⟨room, .factor, skipSpaces s⟩
  | second {room s inside t r behind} : accept? '(' s = some inside →
      read limit room (.chain .additive) inside = .ok (t, r) → accept? ',' r = some behind →
      Enters limit ⟨room, .call .power, s⟩ ⟨room, .chain .additive, behind⟩
  | exponent {room s inside t r} : accept? '(' s = some inside →
      read limit room (.chain .additive) inside = .ok (t, r) → accept? ',' r = none →
      Enters limit ⟨room, .call .power, s⟩ ⟨room, .factor, closing r⟩
  | bareExponent {room s t r} : accept? '(' s = none →
      read limit room .factor (skipSpaces s) = .ok (t, r) →
      Enters limit ⟨room, .call .power, s⟩ ⟨room, .factor, r⟩

/-- The measure of the recursion: the length of the text counts, and at the same place the part. -/
def Task.size (task : Task) : Nat := 3 * task.text.length + weight task.part

theorem Task.size_le (task : Task) : task.size ≤ 3 * task.text.length + 2 :=
  Nat.add_le_add_left (weight_le task.part) _

/-- Whatever part it is that stands further on, it comes first. -/
theorem Task.size_lt_of_length_lt {task next : Task} (h : next.text.length < task.text.length) :
    next.size < task.size := by
  have := weight_le next.part
  simp only [size]
  omega

/-- Every task enters only smaller ones, so the recursion ends however much room there is. -/
theorem Enters.size_lt {task next : Task} (h : Enters limit task next) : next.size < task.size := by
  cases h with
  | first => exact Nat.add_lt_add_left (weight_operand_lt _) _
  | tail first => exact Task.size_lt_of_length_lt (length_lt_of_read_operand first)
  | right ahead => exact Task.size_lt_of_length_lt (length_lt_of_skipSpaces_eq_cons ahead)
  | further ahead right =>
    exact Task.size_lt_of_length_lt
      (Nat.lt_trans (length_lt_of_read_operand right) (length_lt_of_skipSpaces_eq_cons ahead))
  | signed opened | inside opened | call opened | unknown opened =>
    exact Task.size_lt_of_length_lt
      (Opening.length_lt_of_behind? (congrArg Opening.behind? opened))
  | group opened => exact Task.size_lt_of_length_lt (length_lt_of_accept?_eq_some opened)
  | @bare _ _ s _ =>
    -- the factor may stand where the call does, but it is the lighter part
    have le := length_skipSpaces_le s
    simp only [Task.size, weight]
    omega
  | second opened first separated =>
    exact Task.size_lt_of_length_lt
      (Nat.lt_trans (length_lt_of_accept?_eq_some separated)
        (Nat.lt_trans (length_lt_of_read_chain first) (length_lt_of_accept?_eq_some opened)))
  | exponent opened first _ =>
    exact Task.size_lt_of_length_lt
      (Nat.lt_of_le_of_lt (length_closing_le _)
        (Nat.lt_trans (length_lt_of_read_chain first) (length_lt_of_accept?_eq_some opened)))
  | bareExponent _ first =>
    exact Task.size_lt_of_length_lt
      (Nat.lt_of_lt_of_le (length_lt_of_read_factor first) (length_skipSpaces_le _))

/-- What holds of a task if it holds of those that it enters holds of every task. -/
theorem Task.induct (limit : Nat) {motive : Task → Prop}
    (step : ∀ task, (∀ next, Enters limit task next → motive next) → motive task) (task : Task) :
    motive task := by
  induction task using (measure Task.size).wf.induction with
  | h task smaller => exact step task fun next enters => smaller next enters.size_lt

/-- Induction over everything that is read. Each case is a part with what is found at its front, and
assumes the statement of the parts that are read for it, the later ones at the place where the
earlier ones end. -/
theorem read_induct (limit : Nat) {motive : Nat → Part → List Char → Prop}
    (chain : ∀ room level s, motive room level.operand s →
      (∀ t r, read limit room level.operand s = .ok (t, r) → motive room (.tail level t) r) →
      motive room (.chain level) s)
    (done : ∀ room level left s,
      (∀ c rest, skipSpaces s = c :: rest → level.operator? c = none) →
      motive room (.tail level left) s)
    (more : ∀ room op left s rest, skipSpaces s = op.symbol :: rest →
      motive room op.level.operand rest →
      (∀ t r, read limit room op.level.operand rest = .ok (t, r) →
        motive room (.tail op.level (.binary op left t)) r) →
      motive room (.tail op.level left) s)
    (full : ∀ s, motive 0 .factor s)
    (sign : ∀ room s mark rest, Opening.ofText s = .sign mark rest → motive room .factor rest →
      motive (room + 1) .factor s)
    (parenthesis : ∀ room s rest, Opening.ofText s = .parenthesis rest →
      motive room (.chain .additive) rest → motive (room + 1) .factor s)
    (builtin : ∀ room s function rest, Opening.ofText s = .builtin function rest →
      motive room (.call function) rest → motive (room + 1) .factor s)
    (number : ∀ room s run rest, Opening.ofText s = .number run rest → motive (room + 1) .factor s)
    (word : ∀ room s run rest, Opening.ofText s = .word run rest → motive room (.call .floor) rest →
      motive (room + 1) .factor s)
    (other : ∀ room s c rest, Opening.ofText s = .other c rest → motive (room + 1) .factor s)
    (nothing : ∀ room s, Opening.ofText s = .nothing → motive (room + 1) .factor s)
    (floorGroup : ∀ room s inside, accept? '(' s = some inside →
      motive room (.chain .additive) inside → motive room (.call .floor) s)
    (floorFactor : ∀ room s, accept? '(' s = none → motive room .factor (skipSpaces s) →
      motive room (.call .floor) s)
    (powerGroup : ∀ room s inside, accept? '(' s = some inside →
      motive room (.chain .additive) inside →
      (∀ t r, read limit room (.chain .additive) inside = .ok (t, r) →
        (∀ behind, accept? ',' r = some behind → motive room (.chain .additive) behind) ∧
        (accept? ',' r = none → motive room .factor (closing r))) →
      motive room (.call .power) s)
    (powerFactors : ∀ room s, accept? '(' s = none → motive room .factor (skipSpaces s) →
      (∀ t r, read limit room .factor (skipSpaces s) = .ok (t, r) → motive room .factor r) →
      motive room (.call .power) s)
    (room : Nat) (part : Part) (s : List Char) : motive room part s := by
  refine Task.induct limit (motive := fun task => motive task.room task.part task.text) ?_
    ⟨room, part, s⟩
  clear room part s
  rintro ⟨room, part, s⟩ entered
  cases part with
  | chain level =>
    exact chain room level s (entered _ .first) fun t r first => entered _ (.tail first)
  | tail level left =>
    by_cases follows : ∃ op : Operator, op.level = level ∧ ∃ rest, skipSpaces s = op.symbol :: rest
    · obtain ⟨op, rfl, rest, ahead⟩ := follows
      exact more room op left s rest ahead (entered _ (.right ahead))
        fun t r right => entered _ (.further ahead right)
    · refine done room level left s ?_
      intro c rest ahead
      rw [Option.eq_none_iff_forall_ne_some]
      intro op found
      obtain ⟨same, rfl⟩ := Level.operator?_eq_some_iff.1 found
      exact follows ⟨op, same, rest, ahead⟩
  | factor =>
    cases room with
    | zero => exact full s
    | succ room =>
      cases opened : Opening.ofText s with
      | sign mark rest => exact sign room s mark rest opened (entered _ (.signed opened))
      | parenthesis rest => exact parenthesis room s rest opened (entered _ (.inside opened))
      | builtin function rest =>
        exact builtin room s function rest opened (entered _ (.call opened))
      | number run rest => exact number room s run rest opened
      | word run rest => exact word room s run rest opened (entered _ (.unknown opened))
      | other c rest => exact other room s c rest opened
      | nothing => exact nothing room s opened
  | call function =>
    cases opened : accept? '(' s with
    | none =>
      cases function with
      | floor => exact floorFactor room s opened (entered _ (.bare opened))
      | power =>
        exact powerFactors room s opened (entered _ (.bare opened))
          fun t r first => entered _ (.bareExponent opened first)
    | some inside =>
      cases function with
      | floor => exact floorGroup room s inside opened (entered _ (.group opened))
      | power =>
        exact powerGroup room s inside opened (entered _ (.group opened)) fun t r first =>
          ⟨fun behind separated => entered _ (.second opened first separated),
            fun missing => entered _ (.exponent opened first missing)⟩

end Reader

end Reckoner
