import Reckoner.Proofs.Expression.Parts

/-!
# The limit on nesting

The limit only ever refuses. `read_widens` compares one reading with another that has more room: if
the first was refused for its depth, nothing is said of the second, and otherwise they have the same
answer. `not_tooDeep_of_length_lt` says that a text is never refused for its depth where there is
more room than it has characters, because every factor inside another begins behind it.
-/

namespace Reckoner.Reader

variable {α β : Type}

/-- Reading stopped because factors nest too deeply. -/
def TooDeep (x : Except Setback α) : Prop := ∃ k rest, x = .error ⟨.nestingTooDeep k, rest⟩

@[simp] theorem not_tooDeep_ok (a : α) : ¬ TooDeep (.ok a) := by
  rintro ⟨k, rest, same⟩
  contradiction

theorem not_tooDeep_error {setback : Setback} (h : ∀ k, setback.fault ≠ .nestingTooDeep k) :
    ¬ TooDeep (.error setback : Except Setback α) := by
  rintro ⟨k, rest, same⟩
  cases same
  exact h k rfl

/-- A run of digits and dots is a numeral or not, however deep it stands. -/
theorem not_tooDeep_number (run rest : List Char) :
    ¬ TooDeep (match Numeral.ofRun? run with
      | some numeral => .ok (Expression.literal numeral, rest)
      | none => .error (Setback.mk (.invalidNumber run) rest)) := by
  cases Numeral.ofRun? run with
  | some numeral => exact not_tooDeep_ok _
  | none => exact not_tooDeep_error (by simp)

theorem not_tooDeep_map {x : Except Setback α} (f : α → β) (h : ¬ TooDeep x) :
    ¬ TooDeep (x.map f) := by
  rintro ⟨k, rest, same⟩
  cases x with
  | ok a => contradiction
  | error setback =>
    cases same
    exact h ⟨k, rest, rfl⟩

theorem not_tooDeep_bind {x : Except Setback α} {f : α → Except Setback β} (h : ¬ TooDeep x)
    (h' : ∀ a, x = .ok a → ¬ TooDeep (f a)) : ¬ TooDeep (x.bind f) := by
  cases x with
  | ok a => exact h' a rfl
  | error setback =>
    rintro ⟨k, rest, same⟩
    cases same
    exact h ⟨k, rest, rfl⟩

/-! ## More room -/

/-- What becomes of an answer where there is more room: a refusal for the depth, which names the
limit, may become anything; every other answer stays. -/
inductive Widens (limit : Nat) : Except Setback α → Except Setback α → Prop
  | refused (rest : List Char) (y) : Widens limit (.error ⟨.nestingTooDeep limit, rest⟩) y
  | stays {x} : ¬ TooDeep x → Widens limit x x

namespace Widens

variable {limit : Nat} {x y : Except Setback α}

theorem eq_error (h : Widens limit x y) (deep : TooDeep x) :
    ∃ rest, x = .error ⟨.nestingTooDeep limit, rest⟩ := by
  cases h with
  | refused rest => exact ⟨rest, rfl⟩
  | stays shallow => exact absurd deep shallow

theorem eq_of_not_tooDeep (h : Widens limit x y) (shallow : ¬ TooDeep x) : y = x := by
  cases h with
  | refused rest => exact absurd ⟨limit, rest, rfl⟩ shallow
  | stays _ => rfl

theorem map (f : α → β) (h : Widens limit x y) : Widens limit (x.map f) (y.map f) := by
  cases h with
  | refused rest => exact .refused rest _
  | stays shallow => exact .stays (not_tooDeep_map f shallow)

theorem bind {f g : α → Except Setback β} (h : Widens limit x y)
    (h' : ∀ a, x = .ok a → Widens limit (f a) (g a)) :
    Widens limit (x.bind f) (y.bind g) := by
  cases h with
  | refused rest => exact .refused rest _
  | stays shallow =>
    cases x with
    | ok a => exact h' a rfl
    | error setback => exact .stays (not_tooDeep_bind shallow fun a same => nomatch same)

end Widens

/-- With more room, and whatever the limit is called, an answer stays unless it was a refusal for
the depth. -/
theorem read_widens (limit room : Nat) (part : Part) (s : List Char) :
    ∀ limit' room', room ≤ room' →
      Widens limit (read limit room part s) (read limit' room' part s) := by
  induction room, part, s using read_induct limit with
  | chain room level s operand tail =>
    intro limit' room' le
    rw [read_chain, read_chain]
    exact (operand limit' room' le).bind fun p first => tail p.1 p.2 first limit' room' le
  | done room level left s none =>
    intro limit' room' _
    rw [read_tail_done none, read_tail_done none]
    exact .stays (not_tooDeep_ok _)
  | more room op left s rest ahead operand tail =>
    intro limit' room' le
    rw [read_tail_more ahead rfl, read_tail_more ahead rfl]
    exact (operand limit' room' le).bind fun p right => tail p.1 p.2 right limit' room' le
  | full s =>
    intro limit' room' _
    rw [read_factor_zero]
    exact .refused s _
  | sign room s mark rest opened operand =>
    intro limit' room' le
    obtain ⟨room', rfl⟩ := Nat.exists_eq_add_of_le' (Nat.le_of_add_left_le le)
    rw [read_factor_succ, read_factor_succ, opened]
    exact (operand limit' room' (Nat.le_of_succ_le_succ le)).map _
  | parenthesis room s rest opened inside =>
    intro limit' room' le
    obtain ⟨room', rfl⟩ := Nat.exists_eq_add_of_le' (Nat.le_of_add_left_le le)
    rw [read_factor_succ, read_factor_succ, opened]
    exact (inside limit' room' (Nat.le_of_succ_le_succ le)).map _
  | builtin room s function rest opened call =>
    intro limit' room' le
    obtain ⟨room', rfl⟩ := Nat.exists_eq_add_of_le' (Nat.le_of_add_left_le le)
    rw [read_factor_succ, read_factor_succ, opened]
    exact call limit' room' (Nat.le_of_succ_le_succ le)
  | number room s run rest opened =>
    intro limit' room' le
    obtain ⟨room', rfl⟩ := Nat.exists_eq_add_of_le' (Nat.le_of_add_left_le le)
    rw [read_factor_succ, read_factor_succ, opened]
    exact .stays (not_tooDeep_number run rest)
  | word room s run rest opened call =>
    intro limit' room' le
    obtain ⟨room', rfl⟩ := Nat.exists_eq_add_of_le' (Nat.le_of_add_left_le le)
    rw [read_factor_succ, read_factor_succ, opened]
    -- the word is refused once its argument has been read
    exact (call limit' room' (Nat.le_of_succ_le_succ le)).bind fun _ _ =>
      .stays (not_tooDeep_error (by simp))
  | other room s c rest opened =>
    intro limit' room' le
    obtain ⟨room', rfl⟩ := Nat.exists_eq_add_of_le' (Nat.le_of_add_left_le le)
    rw [read_factor_succ, read_factor_succ, opened]
    exact .stays (not_tooDeep_error (by simp))
  | nothing room s opened =>
    intro limit' room' le
    obtain ⟨room', rfl⟩ := Nat.exists_eq_add_of_le' (Nat.le_of_add_left_le le)
    rw [read_factor_succ, read_factor_succ, opened]
    exact .stays (not_tooDeep_error (by simp))
  | floorGroup room s inside opened argument =>
    intro limit' room' le
    rw [read_call_floor, read_call_floor, opened]
    exact (argument limit' room' le).map _
  | floorFactor room s opened argument =>
    intro limit' room' le
    rw [read_call_floor, read_call_floor, opened]
    exact (argument limit' room' le).map _
  | powerGroup room s inside opened base exponent =>
    intro limit' room' le
    rw [read_call_power, read_call_power, opened]
    refine (base limit' room' le).bind fun p first => ?_
    obtain ⟨second, factor⟩ := exponent p.1 p.2 first
    cases separated : accept? ',' p.2 with
    | some behind => exact (second behind separated limit' room' le).map _
    | none => exact (factor separated limit' room' le).map _
  | powerFactors room s opened base exponent =>
    intro limit' room' le
    rw [read_call_power, read_call_power, opened]
    exact (base limit' room' le).bind fun p first =>
      (exponent p.1 p.2 first limit' room' le).map _

/-! ## Enough room -/

/-- Each factor takes a character before the next one begins inside it, so more room than there are
characters is enough. -/
theorem not_tooDeep_of_length_lt (limit room : Nat) (part : Part) (s : List Char) :
    s.length < room → ¬ TooDeep (read limit room part s) := by
  induction room, part, s using read_induct limit with
  | chain room level s operand tail =>
    intro lt
    rw [read_chain]
    refine not_tooDeep_bind (operand lt) fun p first => ?_
    exact tail p.1 p.2 first (Nat.lt_trans (length_lt_of_read_operand first) lt)
  | done room level left s none =>
    intro _
    rw [read_tail_done none]
    exact not_tooDeep_ok _
  | more room op left s rest ahead operand tail =>
    intro lt
    have behind := Nat.lt_trans (length_lt_of_skipSpaces_eq_cons ahead) lt
    rw [read_tail_more ahead rfl]
    refine not_tooDeep_bind (operand behind) fun p right => ?_
    exact tail p.1 p.2 right (Nat.lt_trans (length_lt_of_read_operand right) behind)
  | full s =>
    intro lt
    exact absurd lt (Nat.not_lt_zero _)
  | sign room s mark rest opened operand =>
    intro lt
    have shorter := Opening.length_lt_of_behind? (congrArg Opening.behind? opened)
    rw [read_factor_succ, opened]
    exact not_tooDeep_map _ (operand (by omega))
  | parenthesis room s rest opened inside =>
    intro lt
    have shorter := Opening.length_lt_of_behind? (congrArg Opening.behind? opened)
    rw [read_factor_succ, opened]
    exact not_tooDeep_map _ (inside (by omega))
  | builtin room s function rest opened call =>
    intro lt
    have shorter := Opening.length_lt_of_behind? (congrArg Opening.behind? opened)
    rw [read_factor_succ, opened]
    exact call (by omega)
  | number room s run rest opened =>
    intro _
    rw [read_factor_succ, opened]
    exact not_tooDeep_number run rest
  | word room s run rest opened call =>
    intro lt
    have shorter := Opening.length_lt_of_behind? (congrArg Opening.behind? opened)
    rw [read_factor_succ, opened]
    exact not_tooDeep_bind (call (by omega)) fun _ _ => not_tooDeep_error (by simp)
  | other room s c rest opened =>
    intro _
    rw [read_factor_succ, opened]
    exact not_tooDeep_error (by simp)
  | nothing room s opened =>
    intro _
    rw [read_factor_succ, opened]
    exact not_tooDeep_error (by simp)
  | floorGroup room s inside opened argument =>
    intro lt
    have shorter := length_lt_of_accept?_eq_some opened
    rw [read_call_floor, opened]
    exact not_tooDeep_map _ (argument (by omega))
  | floorFactor room s opened argument =>
    intro lt
    have le := length_skipSpaces_le s
    rw [read_call_floor, opened]
    exact not_tooDeep_map _ (argument (by omega))
  | powerGroup room s inside opened base exponent =>
    intro lt
    have shorter := length_lt_of_accept?_eq_some opened
    rw [read_call_power, opened]
    refine not_tooDeep_bind (base (by omega)) fun p first => ?_
    obtain ⟨second, factor⟩ := exponent p.1 p.2 first
    have taken := length_lt_of_read_chain first
    cases separated : accept? ',' p.2 with
    | some behind =>
      have comma := length_lt_of_accept?_eq_some separated
      exact not_tooDeep_map _ (second behind separated (by omega))
    | none =>
      have le := length_closing_le p.2
      exact not_tooDeep_map _ (factor separated (by omega))
  | powerFactors room s opened base exponent =>
    intro lt
    have le := length_skipSpaces_le s
    rw [read_call_power, opened]
    refine not_tooDeep_bind (base (by omega)) fun p first => ?_
    have taken := length_lt_of_read_factor first
    exact not_tooDeep_map _ (exponent p.1 p.2 first (by omega))

end Reckoner.Reader
