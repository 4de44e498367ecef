import Reckoner.Proofs.Expression.Parts

/-!
# What is read is derived

`derives_of_read`: whatever the reader makes of a text is derived by the grammar, with no more
nesting than there was room for.

The reader passes over spaces as soon as it looks for a symbol, while a derivation leaves them to
the token behind them. The two therefore stop at places that differ by spaces, and `Derived` speaks
of all texts that agree behind their leading spaces.
-/

namespace Reckoner

namespace Grammar

theorem exists_closes_closing {s s' : List Char} (same : skipSpaces s' = skipSpaces s) :
    ∃ r', Closes s' r' ∧ skipSpaces r' = skipSpaces (closing s) := by
  by_cases closed : ∃ rest, skipSpaces s = ')' :: rest
  · obtain ⟨rest, ahead⟩ := closed
    refine ⟨rest, .inl ((token_singleton_iff (by simp)).2 (same.trans ahead)), ?_⟩
    rw [closing_of_skipSpaces_eq ahead]
  · refine ⟨s', .inr ⟨?_, rfl⟩, ?_⟩
    · rw [next_iff (by simp), same]
      exact closed
    · rw [closing_of_not_next fun rest ahead => closed ⟨rest, ahead⟩, same, skipSpaces_skipSpaces]

/-- From every text that agrees with `s` behind its spaces the tree is derived, within the given
room, up to a place that agrees with `r`. -/
def Derived (room : Nat) (part : Part) (s : List Char) (t : Expression) (r : List Char) : Prop :=
  ∀ s', skipSpaces s' = skipSpaces s →
    ∃ n r', n ≤ room ∧ Derives n part s' t r' ∧ skipSpaces r' = skipSpaces r

section Rules

variable {room : Nat} {level : Level} {s rest r : List Char} {t : Expression}

theorem not_next_of_accept?_eq_none {c : Char} {s' : List Char} (noSpace : c ≠ ' ')
    (refused : accept? c s = none) (same : skipSpaces s' = skipSpaces s) : ¬ Next c s' := by
  rw [next_iff noSpace, same]
  rintro ⟨behind, ahead⟩
  exact accept?_eq_none_iff.1 refused behind ahead

theorem Derived.chain {first : Expression} (operand : Derived room level.operand s first rest)
    (tail : Derived room (.tail level first) rest t r) : Derived room (.chain level) s t r := by
  intro s' same
  obtain ⟨m, rest', leM, derivesFirst, sameRest⟩ := operand s' same
  obtain ⟨n, r', leN, derivesTail, ends⟩ := tail rest' sameRest
  exact ⟨max m n, r', Nat.max_le.2 ⟨leM, leN⟩, .chain derivesFirst derivesTail, ends⟩

theorem Derived.done {left : Expression}
    (none : ∀ c rest, skipSpaces s = c :: rest → level.operator? c = none) :
    Derived room (.tail level left) s left (skipSpaces s) := by
  intro s' same
  refine ⟨0, s', Nat.zero_le _, .done ?_, by rw [skipSpaces_skipSpaces, same]⟩
  intro op ofLevel next
  obtain ⟨rest, ahead⟩ := (next_iff op.symbol_ne_space).1 next
  have found := none _ rest (same.symm.trans ahead)
  rw [Level.operator?_eq_some_iff.2 ⟨ofLevel, rfl⟩] at found
  contradiction

theorem Derived.more {op : Operator} {left right : Expression} {behind : List Char}
    (ahead : skipSpaces s = op.symbol :: behind)
    (operand : Derived room op.level.operand behind right rest)
    (tail : Derived room (.tail op.level (.binary op left right)) rest t r) :
    Derived room (.tail op.level left) s t r := by
  intro s' same
  obtain ⟨m, rest', leM, derivesRight, sameRest⟩ := operand behind rfl
  obtain ⟨n, r', leN, derivesTail, ends⟩ := tail rest' sameRest
  have token : Token [op.symbol] s' behind :=
    (token_singleton_iff op.symbol_ne_space).2 (same.trans ahead)
  exact ⟨max m n, r', Nat.max_le.2 ⟨leM, leN⟩, .more rfl token derivesRight derivesTail, ends⟩

theorem Derived.sign {mark : Sign} (ahead : skipSpaces s = mark.symbol :: rest)
    (operand : Derived room .factor rest t r) :
    Derived (room + 1) .factor s (.signed mark t) r := by
  intro s' same
  obtain ⟨n, r', le, derived, ends⟩ := operand rest rfl
  have token : Token [mark.symbol] s' rest :=
    (token_singleton_iff mark.symbol_ne_space).2 (same.trans ahead)
  exact ⟨n + 1, r', Nat.succ_le_succ le, .sign token derived, ends⟩

theorem Derived.group (ahead : skipSpaces s = '(' :: rest)
    (inner : Derived room (.chain .additive) rest t r) :
    Derived (room + 1) .factor s t (closing r) := by
  intro s' same
  obtain ⟨n, behind, le, derived, sameBehind⟩ := inner rest rfl
  obtain ⟨r', closes, ends⟩ := exists_closes_closing sameBehind
  have token : Token ['('] s' rest := (token_singleton_iff (by simp)).2 (same.trans ahead)
  exact ⟨n + 1, r', Nat.succ_le_succ le, .group token derived closes, ends⟩

theorem Derived.number {numeral : Numeral} (ahead : skipSpaces s = numeral.run ++ rest)
    (stops : Stops isDigitOrDot rest) : Derived (room + 1) .factor s (.literal numeral) rest := by
  intro s' same
  have token : Token numeral.run s' rest := Numeral.token_iff.2 (same.trans ahead)
  exact ⟨1, rest, Nat.succ_le_succ (Nat.zero_le _), .number token stops, rfl⟩

theorem Derived.application {function : Builtin} (ahead : skipSpaces s = function.name ++ rest)
    (call : Derived room (.call function) rest t r) : Derived (room + 1) .factor s t r := by
  intro s' same
  obtain ⟨n, r', le, derived, ends⟩ := call rest rfl
  have token : Token function.name s' rest := Builtin.token_iff.2 (same.trans ahead)
  exact ⟨n + 1, r', Nat.succ_le_succ le, .application token derived, ends⟩

theorem Derived.floorGroup {inside : List Char} (opened : accept? '(' s = some inside)
    (argument : Derived room (.chain .additive) inside t r) :
    Derived room (.call .floor) s (.floor t) (closing r) := by
  intro s' same
  obtain ⟨n, behind, le, derived, sameBehind⟩ := argument inside rfl
  obtain ⟨r', closes, ends⟩ := exists_closes_closing sameBehind
  have token : Token ['('] s' inside :=
    (token_singleton_iff (by simp)).2 (same.trans (accept?_eq_some_iff.1 opened))
  exact ⟨n, r', le, .floorGroup token derived closes, ends⟩

theorem Derived.floorFactor (opened : accept? '(' s = none)
    (argument : Derived room .factor (skipSpaces s) t r) :
    Derived room (.call .floor) s (.floor t) r := by
  intro s' same
  obtain ⟨n, r', le, derived, ends⟩ := argument s' (by rw [same, skipSpaces_skipSpaces])
  have noGroup := not_next_of_accept?_eq_none (by simp) opened same
  exact ⟨n, r', le, .floorFactor noGroup derived, ends⟩

section Powers

variable {x y : Expression} {inside : List Char}

theorem Derived.powerPair {behind : List Char} (opened : accept? '(' s = some inside)
    (base : Derived room (.chain .additive) inside x rest)
    (separated : accept? ',' rest = some behind)
    (exponent : Derived room (.chain .additive) behind y r) :
    Derived room (.call .power) s (.power x y) (closing r) := by
  intro s' same
  obtain ⟨m, rest', leM, derivesBase, sameRest⟩ := base inside rfl
  obtain ⟨n, last, leN, derivesExponent, sameLast⟩ := exponent behind rfl
  obtain ⟨r', closes, ends⟩ := exists_closes_closing sameLast
  have token : Token ['('] s' inside :=
    (token_singleton_iff (by simp)).2 (same.trans (accept?_eq_some_iff.1 opened))
  have comma : Token [','] rest' behind :=
    (token_singleton_iff (by simp)).2 (sameRest.trans (accept?_eq_some_iff.1 separated))
  exact ⟨max m n, r', Nat.max_le.2 ⟨leM, leN⟩,
    .powerPair token derivesBase comma derivesExponent closes, ends⟩

theorem Derived.powerGroup (opened : accept? '(' s = some inside)
    (base : Derived room (.chain .additive) inside x rest) (separated : accept? ',' rest = none)
    (exponent : Derived room .factor (closing rest) y r) :
    Derived room (.call .power) s (.power x y) r := by
  intro s' same
  obtain ⟨m, rest', leM, derivesBase, sameRest⟩ := base inside rfl
  obtain ⟨behind, closes, sameBehind⟩ := exists_closes_closing sameRest
  obtain ⟨n, r', leN, derivesExponent, ends⟩ := exponent behind sameBehind
  have token : Token ['('] s' inside :=
    (token_singleton_iff (by simp)).2 (same.trans (accept?_eq_some_iff.1 opened))
  have noComma := not_next_of_accept?_eq_none (by simp) separated sameRest
  exact ⟨max m n, r', Nat.max_le.2 ⟨leM, leN⟩,
    .powerGroup token derivesBase noComma closes derivesExponent, ends⟩

theorem Derived.powerFactors (opened : accept? '(' s = none)
    (base : Derived room .factor (skipSpaces s) x rest)
    (exponent : Derived room .factor rest y r) :
    Derived room (.call .power) s (.power x y) r := by
  intro s' same
  obtain ⟨m, rest', leM, derivesBase, sameRest⟩ := base s' (by rw [same, skipSpaces_skipSpaces])
  obtain ⟨n, r', leN, derivesExponent, ends⟩ := exponent rest' sameRest
  have noGroup := not_next_of_accept?_eq_none (by simp) opened same
  exact ⟨max m n, r', Nat.max_le.2 ⟨leM, leN⟩,
    .powerFactors noGroup derivesBase derivesExponent, ends⟩

end Powers

end Rules

/-- What is read is derived. The induction is on what the reader reads; each case takes its answer
apart and hands the pieces to the rule of the same name. -/
theorem derives_of_read (limit room : Nat) (part : Part) (s : List Char) :
    ∀ t r, Reader.read limit room part s = .ok (t, r) → Derived room part s t r := by
  induction room, part, s using Reader.read_induct limit with
  | chain room level s operand tail =>
    intro t r h
    rw [Reader.read_chain, bind_eq_ok_iff] at h
    obtain ⟨_, readFirst, readTail⟩ := h
    exact .chain (operand _ _ readFirst) (tail _ _ readFirst _ _ readTail)
  | done room level left s none =>
    intro t r h
    rw [Reader.read_tail_done none] at h
    cases h
    exact .done none
  | more room op left s rest ahead operand tail =>
    intro t r h
    rw [Reader.read_tail_more ahead rfl, bind_eq_ok_iff] at h
    obtain ⟨_, readRight, readTail⟩ := h
    exact .more ahead (operand _ _ readRight) (tail _ _ readRight _ _ readTail)
  | full s =>
    intro t r h
    rw [Reader.read_factor_zero] at h
    contradiction
  | sign room s mark rest opened operand =>
    intro t r h
    rw [Reader.read_factor_succ, opened] at h
    obtain ⟨_, readOperand, result⟩ := map_eq_ok_iff.1 h
    cases result
    exact .sign (Opening.ofText_eq_iff.1 opened) (operand _ _ readOperand)
  | parenthesis room s rest opened inside =>
    intro t r h
    rw [Reader.read_factor_succ, opened] at h
    obtain ⟨_, readInside, result⟩ := map_eq_ok_iff.1 h
    cases result
    exact .group (Opening.ofText_eq_iff.1 opened) (inside _ _ readInside)
  | builtin room s function rest opened call =>
    intro t r h
    rw [Reader.read_factor_succ, opened] at h
    exact .application (Opening.ofText_eq_iff.1 opened) (call _ _ h)
  | number room s run rest opened =>
    intro t r h
    rw [Reader.read_factor_succ, opened] at h
    obtain ⟨ahead, -, -, stops⟩ := Opening.ofText_eq_iff.1 opened
    -- a run of digits and dots need not be a numeral
    cases valid : Numeral.ofRun? run with
    | none =>
      simp only [valid] at h
      contradiction
    | some numeral =>
      simp only [valid] at h
      cases h
      rw [← Numeral.run_of_ofRun?_eq_some valid] at ahead
      exact .number ahead stops
  | word room s run rest opened call =>
    intro t r h
    rw [Reader.read_factor_succ, opened] at h
    -- an identifier is refused even where its argument is read
    obtain ⟨_, _, refused⟩ := bind_eq_ok_iff.1 h
    contradiction
  | other room s c rest opened =>
    intro t r h
    rw [Reader.read_factor_succ, opened] at h
    contradiction
  | nothing room s opened =>
    intro t r h
    rw [Reader.read_factor_succ, opened] at h
    contradiction
  | floorGroup room s inside opened argument =>
    intro t r h
    rw [Reader.read_call_floor, opened] at h
    obtain ⟨_, readArgument, result⟩ := map_eq_ok_iff.1 h
    cases result
    exact .floorGroup opened (argument _ _ readArgument)
  | floorFactor room s opened argument =>
    intro t r h
    rw [Reader.read_call_floor, opened] at h
    obtain ⟨_, readArgument, result⟩ := map_eq_ok_iff.1 h
    cases result
    exact .floorFactor opened (argument _ _ readArgument)
  | powerGroup room s inside opened base exponent =>
    intro t r h
    rw [Reader.read_call_power, opened] at h
    obtain ⟨⟨x, rest⟩, readBase, h⟩ := bind_eq_ok_iff.1 h
    obtain ⟨second, factor⟩ := exponent _ _ readBase
    -- the exponent stands behind a comma, or it is one more factor behind the closing parenthesis
    cases separated : accept? ',' rest with
    | some behind =>
      simp only [separated] at h
      obtain ⟨_, readExponent, result⟩ := map_eq_ok_iff.1 h
      cases result
      exact .powerPair opened (base _ _ readBase) separated
        (second behind separated _ _ readExponent)
    | none =>
      simp only [separated] at h
      obtain ⟨_, readExponent, result⟩ := map_eq_ok_iff.1 h
      cases result
      exact .powerGroup opened (base _ _ readBase) separated (factor separated _ _ readExponent)
  | powerFactors room s opened base exponent =>
    intro t r h
    rw [Reader.read_call_power, opened] at h
    obtain ⟨_, readBase, h⟩ := bind_eq_ok_iff.1 h
    obtain ⟨_, readExponent, result⟩ := map_eq_ok_iff.1 h
    cases result
    exact .powerFactors opened (base _ _ readBase) (exponent _ _ readBase _ _ readExponent)

end Grammar

end Reckoner
