import Reckoner.Proofs.Expression.Parts

/-!
# What is derived is read

`read_of_derives`: a derivation is followed by the reader wherever there is room for its nesting.
`read_tooDeep_of_derives`: where there is not, reading is refused for its depth and for nothing
else.

Both speak of all texts that agree behind their leading spaces, because the reader leaves a part
behind the spaces that follow it and a derivation leaves it in front of them.
-/

namespace Reckoner

namespace Grammar

theorem skipSpaces_closing_of_closes {s s' r : List Char} (closes : Closes s r)
    (same : skipSpaces s' = skipSpaces s) : skipSpaces (closing s') = skipSpaces r := by
  rcases closes with closed | ⟨missing, rfl⟩
  · rw [token_singleton_iff (by simp)] at closed
    rw [closing_of_skipSpaces_eq (same.trans closed)]
  · rw [next_iff (by simp), ← same] at missing
    rw [closing_of_not_next fun rest ahead => missing ⟨rest, ahead⟩, skipSpaces_skipSpaces, same]

/-! ## The reader's equations, from what the rules of the grammar say of a text -/

section Equations

variable {limit room : Nat} {s s' a : List Char} (same : skipSpaces s' = skipSpaces s)
include same

theorem accept?_of_token {c : Char} (noSpace : c ≠ ' ') (token : Token [c] s a) :
    accept? c s' = some a :=
  accept?_eq_some_iff.2 (same.trans ((token_singleton_iff noSpace).1 token))

theorem accept?_of_not_next {c : Char} (noSpace : c ≠ ' ') (refused : ¬ Next c s) :
    accept? c s' = none := by
  rw [accept?_eq_none_iff]
  intro rest ahead
  exact refused ((next_iff noSpace).2 ⟨rest, same.symm.trans ahead⟩)

theorem read_done {level : Level} {left : Expression}
    (none : ∀ op : Operator, op.level = level → ¬ Next op.symbol s) :
    Reader.read limit room (.tail level left) s' = .ok (left, skipSpaces s') := by
  apply Reader.read_tail_done
  intro c rest ahead
  rw [Option.eq_none_iff_forall_ne_some]
  intro op found
  obtain ⟨ofLevel, rfl⟩ := Level.operator?_eq_some_iff.1 found
  exact none op ofLevel ((next_iff op.symbol_ne_space).2 ⟨rest, same.symm.trans ahead⟩)

theorem read_more {op : Operator} {level : Level} (left : Expression) (ofLevel : op.level = level)
    (token : Token [op.symbol] s a) :
    Reader.read limit room (.tail level left) s' =
      (Reader.read limit room level.operand a).bind fun p =>
        Reader.read limit room (.tail level (.binary op left p.1)) p.2 :=
  Reader.read_tail_more (same.trans ((token_singleton_iff op.symbol_ne_space).1 token)) ofLevel

theorem read_sign {mark : Sign} (token : Token [mark.symbol] s a) :
    Reader.read limit (room + 1) .factor s' =
      (Reader.read limit room .factor a).map fun p => (.signed mark p.1, p.2) := by
  have opened : Opening.ofText s' = .sign mark a :=
    Opening.ofText_eq_iff.2 (same.trans ((token_singleton_iff mark.symbol_ne_space).1 token))
  rw [Reader.read_factor_succ, opened]

theorem read_group (token : Token ['('] s a) :
    Reader.read limit (room + 1) .factor s' =
      (Reader.read limit room (.chain .additive) a).map fun p => (p.1, closing p.2) := by
  have opened : Opening.ofText s' = .parenthesis a :=
    Opening.ofText_eq_iff.2 (same.trans ((token_singleton_iff (by simp)).1 token))
  rw [Reader.read_factor_succ, opened]

theorem read_application {function : Builtin} (token : Token function.name s a) :
    Reader.read limit (room + 1) .factor s' = Reader.read limit room (.call function) a := by
  have opened : Opening.ofText s' = .builtin function a :=
    Opening.ofText_eq_iff.2 (same.trans (Builtin.token_iff.1 token))
  rw [Reader.read_factor_succ, opened]

theorem read_number {numeral : Numeral} (token : Token numeral.run s a)
    (stops : Stops isDigitOrDot a) :
    Reader.read limit (room + 1) .factor s' = .ok (.literal numeral, a) := by
  have opened : Opening.ofText s' = .number numeral.run a := by
    obtain ⟨c, word, -, shape⟩ := numeral.exists_run_eq_cons
    have nonempty : numeral.run ≠ [] := by
      rw [shape]
      exact List.cons_ne_nil _ _
    exact Opening.ofText_eq_iff.2
      ⟨same.trans (Numeral.token_iff.1 token), nonempty, numeral.all_isDigitOrDot, stops⟩
  rw [Reader.read_factor_succ, opened]
  simp only [Numeral.ofRun?_run]

end Equations

/-- What is derived is read, wherever there is room for its nesting. -/
theorem read_of_derives (limit : Nat) {n : Nat} {part : Part} {s r : List Char} {t : Expression}
    (h : Derives n part s t r) :
    ∀ room, n ≤ room → ∀ s', skipSpaces s' = skipSpaces s →
      ∃ r', Reader.read limit room part s' = .ok (t, r') ∧ skipSpaces r' = skipSpaces r := by
  induction h with
  | chain _ _ operand tail =>
    intro room le s' same
    obtain ⟨leM, leN⟩ := Nat.max_le.1 le
    obtain ⟨rest', readFirst, sameRest⟩ := operand room leM s' same
    obtain ⟨r', readTail, ends⟩ := tail room leN rest' sameRest
    refine ⟨r', ?_, ends⟩
    rw [Reader.read_chain, readFirst, bind_ok, readTail]
  | done none =>
    intro room _ s' same
    exact ⟨skipSpaces s', read_done same none, by rw [skipSpaces_skipSpaces, same]⟩
  | more ofLevel token _ _ operand tail =>
    intro room le s' same
    obtain ⟨leM, leN⟩ := Nat.max_le.1 le
    obtain ⟨rest', readRight, sameRest⟩ := operand room leM _ rfl
    obtain ⟨r', readTail, ends⟩ := tail room leN rest' sameRest
    refine ⟨r', ?_, ends⟩
    rw [read_more same _ ofLevel token, readRight, bind_ok, readTail]
  | number token stops =>
    intro room le s' same
    obtain ⟨room, rfl⟩ := Nat.exists_eq_add_of_le' le
    exact ⟨_, read_number same token stops, rfl⟩
  | sign token _ operand =>
    intro room le s' same
    obtain ⟨room, rfl⟩ := Nat.exists_eq_add_of_le' (Nat.le_of_add_left_le le)
    obtain ⟨r', readOperand, ends⟩ := operand room (Nat.le_of_succ_le_succ le) _ rfl
    refine ⟨r', ?_, ends⟩
    rw [read_sign same token, readOperand, map_ok]
  | group token _ closes inner =>
    intro room le s' same
    obtain ⟨room, rfl⟩ := Nat.exists_eq_add_of_le' (Nat.le_of_add_left_le le)
    obtain ⟨rest', readInner, sameRest⟩ := inner room (Nat.le_of_succ_le_succ le) _ rfl
    refine ⟨closing rest', ?_, skipSpaces_closing_of_closes closes sameRest⟩
    rw [read_group same token, readInner, map_ok]
  | application token _ call =>
    intro room le s' same
    obtain ⟨room, rfl⟩ := Nat.exists_eq_add_of_le' (Nat.le_of_add_left_le le)
    obtain ⟨r', readCall, ends⟩ := call room (Nat.le_of_succ_le_succ le) _ rfl
    refine ⟨r', ?_, ends⟩
    rw [read_application same token, readCall]
  | floorGroup token _ closes argument =>
    intro room le s' same
    obtain ⟨rest', readArgument, sameRest⟩ := argument room le _ rfl
    refine ⟨closing rest', ?_, skipSpaces_closing_of_closes closes sameRest⟩
    rw [Reader.read_call_floor, accept?_of_token same (by simp) token]
    simp only [readArgument, map_ok]
  | floorFactor noGroup _ argument =>
    intro room le s' same
    -- looking for the parenthesis, the reader has passed over the spaces
    obtain ⟨r', readArgument, ends⟩ :=
      argument room le (skipSpaces s') (by rw [skipSpaces_skipSpaces, same])
    refine ⟨r', ?_, ends⟩
    rw [Reader.read_call_floor, accept?_of_not_next same (by simp) noGroup]
    simp only [readArgument, map_ok]
  | powerPair token _ comma _ closes base exponent =>
    intro room le s' same
    obtain ⟨leM, leN⟩ := Nat.max_le.1 le
    obtain ⟨rest', readBase, sameRest⟩ := base room leM _ rfl
    obtain ⟨last', readExponent, sameLast⟩ := exponent room leN _ rfl
    refine ⟨closing last', ?_, skipSpaces_closing_of_closes closes sameLast⟩
    rw [Reader.read_call_power, accept?_of_token same (by simp) token]
    simp only [readBase, bind_ok, accept?_of_token sameRest (by simp) comma, readExponent, map_ok]
  | powerGroup token _ noComma closes _ base exponent =>
    intro room le s' same
    obtain ⟨leM, leN⟩ := Nat.max_le.1 le
    obtain ⟨rest', readBase, sameRest⟩ := base room leM _ rfl
    obtain ⟨r', readExponent, ends⟩ :=
      exponent room leN (closing rest') (skipSpaces_closing_of_closes closes sameRest)
    refine ⟨r', ?_, ends⟩
    rw [Reader.read_call_power, accept?_of_token same (by simp) token]
    simp only [readBase, bind_ok, accept?_of_not_next sameRest (by simp) noComma, readExponent,
      map_ok]
  | powerFactors noGroup _ _ base exponent =>
    intro room le s' same
    obtain ⟨leM, leN⟩ := Nat.max_le.1 le
    obtain ⟨rest', readBase, sameRest⟩ :=
      base room leM (skipSpaces s') (by rw [skipSpaces_skipSpaces, same])
    obtain ⟨r', readExponent, ends⟩ := exponent room leN rest' sameRest
    refine ⟨r', ?_, ends⟩
    rw [Reader.read_call_power, accept?_of_not_next same (by simp) noGroup]
    simp only [readBase, bind_ok, readExponent, map_ok]

/-- What is derived is refused wherever there is no room for its nesting. Where the part that nests
too deeply is not the first one, the parts in front of it are read. -/
theorem read_tooDeep_of_derives (limit : Nat) {n : Nat} {part : Part} {s r : List Char}
    {t : Expression} (h : Derives n part s t r) :
    ∀ room, room < n → ∀ s', skipSpaces s' = skipSpaces s →
      ∃ rest, Reader.read limit room part s' = .error ⟨.nestingTooDeep limit, rest⟩ := by
  induction h with
  | @chain m _ _ _ _ _ _ _ derivesFirst _ operand tail =>
    intro room lt s' same
    -- the first operand nests too deeply, or else it is read and the tail does
    by_cases inFirst : room < m
    · obtain ⟨rest, deep⟩ := operand room inFirst s' same
      exact ⟨rest, by rw [Reader.read_chain, deep, bind_error]⟩
    · obtain ⟨rest', readFirst, sameRest⟩ :=
        read_of_derives limit derivesFirst room (Nat.le_of_not_lt inFirst) s' same
      obtain ⟨rest, deep⟩ := tail room (by omega) rest' sameRest
      exact ⟨rest, by rw [Reader.read_chain, readFirst, bind_ok, deep]⟩
  | done _ =>
    intro room lt
    exact absurd lt (Nat.not_lt_zero room)
  | @more m _ _ _ _ _ _ _ _ _ _ ofLevel token derivesRight _ operand tail =>
    intro room lt s' same
    rw [read_more same _ ofLevel token]
    by_cases inRight : room < m
    · obtain ⟨rest, deep⟩ := operand room inRight _ rfl
      exact ⟨rest, by rw [deep, bind_error]⟩
    · obtain ⟨rest', readRight, sameRest⟩ :=
        read_of_derives limit derivesRight room (Nat.le_of_not_lt inRight) _ rfl
      obtain ⟨rest, deep⟩ := tail room (by omega) rest' sameRest
      exact ⟨rest, by rw [readRight, bind_ok, deep]⟩
  | number _ _ =>
    intro room lt s' _
    obtain rfl : room = 0 := by omega
    exact ⟨s', Reader.read_factor_zero⟩
  | sign token _ operand =>
    intro room lt s' same
    cases room with
    | zero => exact ⟨s', Reader.read_factor_zero⟩
    | succ room =>
      obtain ⟨rest, deep⟩ := operand room (Nat.lt_of_succ_lt_succ lt) _ rfl
      exact ⟨rest, by rw [read_sign same token, deep, map_error]⟩
  | group token _ _ inner =>
    intro room lt s' same
    cases room with
    | zero => exact ⟨s', Reader.read_factor_zero⟩
    | succ room =>
      obtain ⟨rest, deep⟩ := inner room (Nat.lt_of_succ_lt_succ lt) _ rfl
      exact ⟨rest, by rw [read_group same token, deep, map_error]⟩
  | application token _ call =>
    intro room lt s' same
    cases room with
    | zero => exact ⟨s', Reader.read_factor_zero⟩
    | succ room =>
      obtain ⟨rest, deep⟩ := call room (Nat.lt_of_succ_lt_succ lt) _ rfl
      exact ⟨rest, by rw [read_application same token, deep]⟩
  | floorGroup token _ _ argument =>
    intro room lt s' same
    obtain ⟨rest, deep⟩ := argument room lt _ rfl
    refine ⟨rest, ?_⟩
    rw [Reader.read_call_floor, accept?_of_token same (by simp) token]
    simp only [deep, map_error]
  | floorFactor noGroup _ argument =>
    intro room lt s' same
    obtain ⟨rest, deep⟩ := argument room lt (skipSpaces s') (by rw [skipSpaces_skipSpaces, same])
    refine ⟨rest, ?_⟩
    rw [Reader.read_call_floor, accept?_of_not_next same (by simp) noGroup]
    simp only [deep, map_error]
  | @powerPair m _ _ _ _ _ _ _ _ _ token derivesBase comma _ _ base exponent =>
    intro room lt s' same
    rw [Reader.read_call_power, accept?_of_token same (by simp) token]
    by_cases inBase : room < m
    · obtain ⟨rest, deep⟩ := base room inBase _ rfl
      exact ⟨rest, by simp only [deep, bind_error]⟩
    · obtain ⟨rest', readBase, sameRest⟩ :=
        read_of_derives limit derivesBase room (Nat.le_of_not_lt inBase) _ rfl
      obtain ⟨rest, deep⟩ := exponent room (by omega) _ rfl
      refine ⟨rest, ?_⟩
      simp only [readBase, bind_ok, accept?_of_token sameRest (by simp) comma, deep, map_error]
  | @powerGroup m _ _ _ _ _ _ _ _ token derivesBase noComma closes _ base exponent =>
    intro room lt s' same
    rw [Reader.read_call_power, accept?_of_token same (by simp) token]
    by_cases inBase : room < m
    · obtain ⟨rest, deep⟩ := base room inBase _ rfl
      exact ⟨rest, by simp only [deep, bind_error]⟩
    · obtain ⟨rest', readBase, sameRest⟩ :=
        read_of_derives limit derivesBase room (Nat.le_of_not_lt inBase) _ rfl
      obtain ⟨rest, deep⟩ := exponent room (by omega) (closing rest')
        (skipSpaces_closing_of_closes closes sameRest)
      refine ⟨rest, ?_⟩
      simp only [readBase, bind_ok, accept?_of_not_next sameRest (by simp) noComma, deep,
        map_error]
  | @powerFactors m _ _ _ _ _ _ noGroup derivesBase _ base exponent =>
    intro room lt s' same
    rw [Reader.read_call_power, accept?_of_not_next same (by simp) noGroup]
    have trimmed : skipSpaces (skipSpaces s') = skipSpaces s' := skipSpaces_skipSpaces s'
    by_cases inBase : room < m
    · obtain ⟨rest, deep⟩ := base room inBase (skipSpaces s') (trimmed.trans same)
      exact ⟨rest, by simp only [deep, bind_error]⟩
    · obtain ⟨rest', readBase, sameRest⟩ := read_of_derives limit derivesBase room
        (Nat.le_of_not_lt inBase) (skipSpaces s') (trimmed.trans same)
      obtain ⟨rest, deep⟩ := exponent room (by omega) rest' sameRest
      exact ⟨rest, by simp only [readBase, bind_ok, deep, map_error]⟩

end Grammar

end Reckoner
