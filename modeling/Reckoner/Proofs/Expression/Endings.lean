import Reckoner.Proofs.Expression.Faults
import Reckoner.Proofs.Shorthand.Formula

/-!
# Texts that end behind an operand

The reader stops at the end of a text for want of an operand, but not where the text ends with a
digit or a closing parenthesis (`Finishes`): every part that asks for an operand still has that last
character in front of it (`Reader.Enters.ready`). The one part that asks for a second operand behind
a complete one is a power without a comma, so the powers of the text have to be written with theirs
(`PowersSeparated`).
-/

namespace Reckoner

/-! ## The last character -/

/-- The characters that an operand can end with. -/
def endsOperand (c : Char) : Bool := c.isDigit || c == ')'

/-- The text ends with a digit or a closing parenthesis. -/
def Finishes (s : List Char) : Prop := s.getLast?.any endsOperand = true

namespace Finishes

variable {r s : List Char}

theorem ne_nil (h : Finishes s) : s ≠ [] := by
  rintro rfl
  contradiction

theorem append (h : Finishes r) (u : List Char) : Finishes (u ++ r) := by
  rwa [Finishes, List.getLast?_append_of_ne_nil u h.ne_nil]

theorem of_suffix (h : Finishes s) (ends : r <:+ s) (nonempty : r ≠ []) : Finishes r := by
  obtain ⟨u, rfl⟩ := ends
  rwa [Finishes, List.getLast?_append_of_ne_nil u nonempty] at h

/-- Something follows a word that does not end like an operand. -/
theorem of_append {u : List Char} (h : Finishes (u ++ r))
    (plain : u.getLast?.any endsOperand = false) :
    Finishes r := by
  refine h.of_suffix (List.suffix_append u r) ?_
  rintro rfl
  rw [List.append_nil, Finishes, plain] at h
  contradiction

theorem of_cons {c : Char} (h : Finishes (c :: r)) (plain : endsOperand c = false) : Finishes r :=
  of_append (u := [c]) h plain

theorem skipSpaces (h : Finishes s) : Finishes (skipSpaces s) := by
  obtain ⟨n, shape⟩ := exists_eq_replicate_append_skipSpaces s
  rw [shape] at h
  refine h.of_append ?_
  cases n <;> simp [List.getLast?_replicate, endsOperand]

theorem of_skipSpaces_eq {c : Char} (h : Finishes s) (ahead : Reckoner.skipSpaces s = c :: r)
    (plain : endsOperand c = false) : Finishes r := by
  have trimmed := h.skipSpaces
  rw [ahead] at trimmed
  exact trimmed.of_cons plain

theorem of_accept? {c : Char} (h : Finishes s) (found : accept? c s = some r)
    (plain : endsOperand c = false) : Finishes r :=
  h.of_skipSpaces_eq (accept?_eq_some_iff.1 found) plain

theorem of_word {run : List Char} (h : Finishes s) (opened : Opening.ofText s = .word run r) :
    Finishes r := by
  obtain ⟨shape, nonempty, all, -⟩ := Opening.ofText_eq_iff.1 opened
  have trimmed := h.skipSpaces
  rw [shape] at trimmed
  refine trimmed.of_append ?_
  have letter := List.all_eq_true.1 all _ (List.getLast_mem nonempty)
  have noDigit := (Bool.or_eq_false_iff.1 (isDigitOrDot_of_isLower letter)).1
  rw [List.getLast?_eq_some_getLast nonempty, Option.any_some, endsOperand, noDigit, Bool.false_or,
    beq_eq_false_iff_ne]
  intro paren
  rw [paren] at letter
  contradiction

end Finishes

/-! ## Powers -/

/-- Every power of the text is written with a parenthesis and a run of digits, and a comma behind
that. -/
def PowersSeparated (s : List Char) : Prop :=
  ∀ rest, Builtin.power.name ++ rest <:+ s → ∃ (a : DigitRun) (behind : List Char),
    rest = '(' :: (a.digits ++ ',' :: behind)

theorem PowersSeparated.of_suffix {r s : List Char} (h : PowersSeparated s) (ends : r <:+ s) :
    PowersSeparated r := fun rest name => h rest (name.trans ends)

/-- A run of digits with a comma behind it is read up to the comma. -/
theorem Reader.rest_of_read_chain_digits {limit room : Nat} {a : DigitRun} {behind r : List Char}
    {t : Expression}
    (h : read limit room (.chain .additive) (a.digits ++ ',' :: behind) = .ok (t, r)) :
    r = ',' :: behind := by
  cases room with
  | zero =>
    rw [read_chain_of_factor_error read_factor_zero] at h
    contradiction
  | succ room =>
    have opened : Opening.ofText (a.digits ++ ',' :: behind) = .number a.digits (',' :: behind) :=
      Opening.ofText_run a.ne_nil a.numeral.all_isDigitOrDot (stops_cons_iff.2 rfl)
    have numeral : Numeral.ofRun? a.digits = some a.numeral := a.numeral.ofRun?_run
    have factor : read limit (room + 1) .factor (a.digits ++ ',' :: behind) =
        .ok (.literal a.numeral, ',' :: behind) := by
      rw [read_factor_succ, opened]
      simp only [numeral]
    have comma : skipSpaces (',' :: behind) = ',' :: behind := skipSpaces_of_ne (by decide) behind
    rw [read_chain_of_factor factor, comma] at h
    · cases h
      rfl
    · intro level c rest ahead
      rw [comma] at ahead
      cases ahead
      cases level <;> rfl

/-! ## Reading -/

/-- What is in front of a part that is read. Behind an operand there may be nothing left; otherwise
an operand is still to come. A power is written with its parenthesis and its comma. -/
def Ready : Part → List Char → Prop
  | .tail _ _, s => s = [] ∨ Finishes s
  | .call .power, s => Finishes s ∧ ∃ (a : DigitRun) (behind : List Char),
      s = '(' :: (a.digits ++ ',' :: behind)
  | _, s => Finishes s

namespace Ready

variable {r s : List Char}

theorem finishes_of_call {function : Builtin} (h : Ready (.call function) s) : Finishes s := by
  cases function with
  | floor => exact h
  | power => exact h.1

/-- Where an operator follows there is something left, so the rest of the chain ends as the text
does. -/
theorem finishes_of_operator {op : Operator} {left : Expression} (h : Ready (.tail op.level left) s)
    (ahead : skipSpaces s = op.symbol :: r) : Finishes r := by
  have finishes : Finishes s := by
    refine h.resolve_left ?_
    rintro rfl
    contradiction
  exact finishes.of_skipSpaces_eq ahead (by cases op <;> rfl)

theorem operand {level : Level} (h : Finishes s) : Ready level.operand s := by
  cases level <;> exact h

/-- What is left behind an operand is nothing, or it ends as the text does. -/
theorem tail {level : Level} {left : Expression} (h : Finishes s) (ends : r <:+ s) :
    Ready (.tail level left) r := (em (r = [])).imp_right (h.of_suffix ends)

end Ready

namespace Reader

variable {limit : Nat} {task next : Task}

/-- Each part is ready when it is entered: an operand begins behind something that does not end like
one, and the rest of a chain is an end of the text. -/
theorem Enters.ready (h : Enters limit task next) (powers : PowersSeparated task.text)
    (ready : Ready task.part task.text) : Ready next.part next.text := by
  cases h with
  | first => exact .operand ready
  | tail first => exact .tail ready (reaches_of_read first).suffix
  | right ahead => exact .operand (ready.finishes_of_operator ahead)
  | further ahead right =>
    exact .tail (ready.finishes_of_operator ahead) (reaches_of_read right).suffix
  | @signed _ _ mark _ opened =>
    have ahead := Opening.ofText_eq_iff.1 opened
    exact Finishes.of_skipSpaces_eq ready ahead (by cases mark <;> rfl)
  | inside opened =>
    exact Finishes.of_skipSpaces_eq ready (Opening.ofText_eq_iff.1 opened) rfl
  | @call _ s function rest opened =>
    have named : skipSpaces s = function.name ++ rest := Opening.ofText_eq_iff.1 opened
    have trimmed := Finishes.skipSpaces ready
    rw [named] at trimmed
    have behind : Finishes rest := trimmed.of_append (by cases function <;> rfl)
    cases function with
    | floor => exact behind
    | power =>
      refine ⟨behind, powers rest ?_⟩
      rw [← named]
      exact suffix_skipSpaces s
  | unknown opened => exact Finishes.of_word ready opened
  | group opened => exact ready.finishes_of_call.of_accept? opened rfl
  | @bare _ function _ opened =>
    cases function with
    | floor => exact Finishes.skipSpaces ready
    | power =>
      obtain ⟨-, a, behind, rfl⟩ := ready
      contradiction
  | @second _ _ inside _ _ behind opened first separated =>
    have inner := ready.finishes_of_call.of_accept? opened rfl
    refine (inner.of_suffix (reaches_of_read first).suffix ?_).of_accept? separated rfl
    rintro rfl
    contradiction
  | @exponent _ _ inside _ _ opened first missing =>
    -- what is read of the run of digits ends in front of the comma
    obtain ⟨-, a, behind, rfl⟩ := ready
    obtain rfl : a.digits ++ ',' :: behind = inside := Option.some.inj opened
    obtain rfl := rest_of_read_chain_digits first
    contradiction
  | bareExponent opened _ =>
    obtain ⟨-, a, behind, rfl⟩ := ready
    contradiction

/-- Something is left in front of a part that is ready. -/
theorem Raises.ne_abruptEnd {setback : Setback} (h : Raises limit task setback)
    (ready : Ready task.part task.text) : setback.fault ≠ .abruptEnd := by
  cases h with
  | nothing opened =>
    exact absurd (Opening.ofText_eq_iff.1 opened) (Finishes.skipSpaces ready).ne_nil
  | _ => exact Fault.noConfusion

end Reader

/-- A text that ends behind an operand, with its powers written out, has all its operands. -/
theorem readValue_ne_abruptEnd (limit : Nat) {s : List Char} (powers : PowersSeparated s)
    (finishes : Finishes s) : readValue limit s ≠ .error .abruptEnd := by
  intro h
  rw [readValue, Expression.read_eq] at h
  split at h
  · rename_i setback refused
    have first : Ready (.chain .additive) s := finishes
    obtain ⟨origin, ⟨-, ready⟩, raises⟩ := Reader.exists_raises_of_read
      (P := fun task => PowersSeparated task.text ∧ Ready task.part task.text)
      (fun _ _ known enters =>
        ⟨known.1.of_suffix enters.reaches.suffix, enters.ready known.1 known.2⟩)
      ⟨powers, first⟩ refused
    exact raises.ne_abruptEnd ready (Except.error.inj h)
  · contradiction
  · exact Fault.noConfusion (Except.error.inj h)

end Reckoner
