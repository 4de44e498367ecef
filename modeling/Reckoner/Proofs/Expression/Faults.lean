import Reckoner.Proofs.Expression.Moves
import Reckoner.Proofs.Expression.Spacing
import Reckoner.Proofs.Grammar.Remainder

/-!
# What a fault says about the text

A fault names a character, a run or a word. `Fault.TrueOf` is what it says about the text by that,
and this holds of the whole text, however deep inside an expression the reader has met it
(`Reader.trueOf_of_read`). To be carried along is where the reader stands: always `Behind` a cut
that divides no run of digits and dots, so that a run which begins there begins there in the whole
text.

Trailing input is met at one place only, behind a whole expression (`readValue_eq_error_cases`).
What stands in front of it is then an expression by itself, and what stands behind it makes no
difference.
-/

namespace Reckoner

/-! ## Behind a cut -/

/-- The text `r` is what is left of `s` behind a cut that divides no run of digits and dots. -/
def Behind (r s : List Char) : Prop := ∃ u, s = u ++ r ∧ dividesRun isDigitOrDot u r = false

namespace Behind

variable {a r s : List Char}

theorem refl (s : List Char) : Behind s s := ⟨[], rfl, rfl⟩

theorem suffix (h : Behind r s) : r <:+ s := by
  obtain ⟨u, rfl, -⟩ := h
  exact List.suffix_append u r

theorem trans (h : Behind r a) (h' : Behind a s) : Behind r s := by
  obtain ⟨u, rfl, cut⟩ := h
  obtain ⟨v, rfl, cut'⟩ := h'
  refine ⟨v ++ u, (List.append_assoc v u r).symm, ?_⟩
  -- the cut behind nothing is the other one
  cases last : u.getLast? with
  | none =>
    rw [List.getLast?_eq_none_iff.1 last, List.append_nil]
    rwa [List.getLast?_eq_none_iff.1 last] at cut'
  | some c =>
    rw [dividesRun, last] at cut
    rwa [dividesRun, List.getLast?_append, last, Option.some_or]

theorem append {word : List Char} (last : word.getLast?.any isDigitOrDot = false) (r : List Char) :
    Behind r (word ++ r) := ⟨word, rfl, by rw [dividesRun, last, Bool.false_and]⟩

theorem of_stops (stops : Stops isDigitOrDot r) (word : List Char) : Behind r (word ++ r) := by
  refine ⟨word, rfl, ?_⟩
  cases r with
  | nil => exact Bool.and_false _
  | cons c r =>
    rw [dividesRun, List.head?_cons, Option.any_some, stops_cons_iff.1 stops, Bool.and_false]

theorem cons {c : Char} (plain : isDigitOrDot c = false) (r : List Char) : Behind r (c :: r) :=
  ⟨[c], rfl, by rw [dividesRun, List.getLast?_singleton, Option.any_some, plain, Bool.false_and]⟩

theorem skipSpaces (s : List Char) : Behind (skipSpaces s) s := by
  obtain ⟨n, shape⟩ := exists_eq_replicate_append_skipSpaces s
  have last : (List.replicate n ' ').getLast?.any isDigitOrDot = false := by
    cases n <;> simp [List.getLast?_replicate, isDigitOrDot]
  have behind := append last (Reckoner.skipSpaces s)
  rwa [← shape] at behind

/-- Behind the symbol that is next. -/
theorem of_accept? {c : Char} (found : accept? c s = some r) (plain : isDigitOrDot c = false) :
    Behind r s := by
  refine trans ?_ (skipSpaces s)
  rw [accept?_eq_some_iff.1 found]
  exact cons plain r

/-- Behind whatever opens an operand: its last character is no digit, or the run has ended. -/
theorem opening {o : Opening} (opened : Opening.ofText s = o) (taken : o.behind? = some r) :
    Behind r s := by
  have describes := Opening.ofText_eq_iff.1 opened
  refine trans ?_ (skipSpaces s)
  generalize Reckoner.skipSpaces s = a at describes
  cases o with
  | sign mark rest =>
    cases taken
    cases describes
    exact cons (by cases mark <;> rfl) r
  | parenthesis rest =>
    cases taken
    cases describes
    exact cons rfl r
  | builtin function rest =>
    cases taken
    cases describes
    exact append (by cases function <;> rfl) r
  | number run rest =>
    cases taken
    obtain ⟨rfl, -, -, stops⟩ := describes
    exact of_stops stops run
  | word run rest =>
    cases taken
    obtain ⟨rfl, nonempty, all, -⟩ := describes
    have letter := List.all_eq_true.1 all _ (List.getLast_mem nonempty)
    refine append ?_ r
    rw [List.getLast?_eq_some_getLast nonempty, Option.any_some, isDigitOrDot_of_isLower letter]
  | other c rest => contradiction
  | nothing => contradiction

end Behind

/-- No move ends inside a run of digits and dots. -/
theorem Moves.behind {r s : List Char} (h : Moves s r) : Behind r s := by
  cases h with
  | spaces => exact .skipSpaces s
  | @symbol c _ _ listed found =>
    have plain : ∀ c ∈ innerSymbols, isDigitOrDot c = false := by
      simp [innerSymbols, isDigitOrDot]
    exact .of_accept? found (plain c listed)
  | opening opened taken => exact .opening opened taken

theorem Reaches.behind {r s : List Char} (h : Reaches s r) : Behind r s := by
  induction h with
  | refl => exact .refl s
  | tail _ moves ih => exact moves.behind.trans ih

theorem Reaches.suffix {r s : List Char} (h : Reaches s r) : r <:+ s := h.behind.suffix

/-! ## True faults -/

/-- A run of characters of the class stands in the text and goes on to neither side. -/
def MaximalRun (p : Char → Bool) (run s : List Char) : Prop :=
  ∃ u w, s = u ++ run ++ w ∧ run ≠ [] ∧ run.all p = true ∧ u.getLast?.any p = false ∧ Stops p w

/-- What the fault says about a text that is read with the limit. A run of digits and dots is no
number because it has no digit or because it has a second dot. -/
def Fault.TrueOf (limit : Nat) (s : List Char) : Fault → Prop
  | .unexpectedCharacter c =>
    c ∈ s ∧ c ∉ [' ', '+', '-', '(', '.'] ∧ c.isDigit = false ∧ c.isLower = false
  | .invalidNumber run =>
    MaximalRun isDigitOrDot run s ∧ (run.any Char.isDigit = false ∨ 2 ≤ run.count '.')
  | .unknownFunction word =>
    ∃ u w, s = u ++ word ++ w ∧ word ≠ [] ∧ word.all Char.isLower = true ∧ Stops Char.isLower w
  | .trailingInput c => c ∈ s ∧ c ∉ [' ', '+', '-', '*', '/']
  | .abruptEnd => True
  | .nestingTooDeep depth => depth = limit
  | .malformedExpression => False
  | .tooManyOperators _ => False

theorem dividesRun_append_of_all {p : Char → Bool} {run : List Char} (nonempty : run ≠ [])
    (all : run.all p = true) (u w : List Char) :
    dividesRun p u (run ++ w) = u.getLast?.any p := by
  obtain ⟨c, run, rfl⟩ := List.exists_cons_of_ne_nil nonempty
  rw [List.all_cons, Bool.and_eq_true] at all
  rw [dividesRun, List.cons_append, List.head?_cons, Option.any_some, all.1, Bool.and_true]

/-- A run that goes on to neither side begins behind a cut, so it is one in the whole text. -/
theorem MaximalRun.of_behind {run r s : List Char} (h : MaximalRun isDigitOrDot run r)
    (behind : Behind r s) : MaximalRun isDigitOrDot run s := by
  obtain ⟨u, w, shape, nonempty, all, first, stops⟩ := h
  have inside : Behind (run ++ w) r := by
    refine ⟨u, shape.trans (List.append_assoc u run w), ?_⟩
    rwa [dividesRun_append_of_all nonempty all]
  obtain ⟨v, shape', cut⟩ := inside.trans behind
  rw [dividesRun_append_of_all nonempty all] at cut
  exact ⟨v, w, shape'.trans (List.append_assoc v run w).symm, nonempty, all, cut, stops⟩

namespace Fault

variable {limit : Nat} {fault : Fault} {r s : List Char}

theorem TrueOf.of_behind (h : fault.TrueOf limit r) (behind : Behind r s) :
    fault.TrueOf limit s := by
  cases fault with
  | invalidNumber run =>
    obtain ⟨maximal, invalid⟩ := h
    exact ⟨maximal.of_behind behind, invalid⟩
  | unexpectedCharacter c | trailingInput c =>
    obtain ⟨v, rfl, -⟩ := behind
    obtain ⟨member, other⟩ := h
    exact ⟨List.mem_append_right v member, other⟩
  | unknownFunction word =>
    obtain ⟨v, rfl, -⟩ := behind
    obtain ⟨u, w, rfl, run⟩ := h
    exact ⟨v ++ u, w, by simp only [List.append_assoc], run⟩
  | _ => exact h

end Fault

/-! What is refused where an operand opens stands there as the fault says. -/

section Openings

variable {limit : Nat} {s rest run : List Char}

theorem trueOf_unexpectedCharacter {c : Char} (opened : Opening.ofText s = .other c rest) :
    (Fault.unexpectedCharacter c).TrueOf limit s := by
  obtain ⟨-, first, paren, noSign, -, noDigit, noLetter⟩ := Opening.ofText_eq_iff.1 opened
  obtain ⟨behind, ahead⟩ := List.head?_eq_some_iff.1 first
  obtain ⟨noDigit, noDot⟩ := Bool.or_eq_false_iff.1 noDigit
  refine ⟨mem_of_skipSpaces_eq_cons ahead, ?_, noDigit, noLetter⟩
  simp only [List.mem_cons, List.not_mem_nil, or_false, not_or]
  exact ⟨ne_space_of_skipSpaces_eq_cons ahead, (noSign .positive).symm, (noSign .negative).symm,
    paren, by simpa using noDot⟩

theorem trueOf_invalidNumber (opened : Opening.ofText s = .number run rest)
    (invalid : Numeral.ofRun? run = none) : (Fault.invalidNumber run).TrueOf limit s := by
  obtain ⟨same, nonempty, all, stops⟩ := Opening.ofText_eq_iff.1 opened
  have front : MaximalRun isDigitOrDot run (skipSpaces s) :=
    ⟨[], rest, same, nonempty, all, rfl, stops⟩
  exact ⟨front.of_behind (.skipSpaces s), (Numeral.ofRun?_eq_none_iff all).1 invalid⟩

theorem trueOf_unknownFunction (opened : Opening.ofText s = .word run rest) :
    (Fault.unknownFunction run).TrueOf limit s := by
  obtain ⟨same, nonempty, all, stops⟩ := Opening.ofText_eq_iff.1 opened
  have front : (Fault.unknownFunction run).TrueOf limit (skipSpaces s) :=
    ⟨[], rest, same, nonempty, all, stops⟩
  exact front.of_behind (.skipSpaces s)

end Openings

/-! ## The faults of the reader -/

namespace Reader

variable {limit room : Nat} {part : Part} {s : List Char} {task : Task} {setback : Setback}

/-- A task that is refused at once is refused for what its text says. Nothing is said of trailing
input, which is left to what stands around a task. -/
theorem Raises.trueOf (h : Raises limit task setback) :
    setback.fault.TrueOf limit task.text ∧ ∀ c, setback.fault ≠ .trailingInput c := by
  cases h with
  | full => exact ⟨rfl, fun _ => Fault.noConfusion⟩
  | number opened invalid =>
    exact ⟨trueOf_invalidNumber opened invalid, fun _ => Fault.noConfusion⟩
  | word opened _ => exact ⟨trueOf_unknownFunction opened, fun _ => Fault.noConfusion⟩
  | other opened => exact ⟨trueOf_unexpectedCharacter opened, fun _ => Fault.noConfusion⟩
  | nothing _ => exact ⟨trivial, fun _ => Fault.noConfusion⟩

/-- Every task is entered behind a cut of the text, so what is true of its text is true of that. -/
theorem trueOf_of_read (refused : read limit room part s = .error setback) :
    setback.fault.TrueOf limit s ∧ ∀ c, setback.fault ≠ .trailingInput c := by
  obtain ⟨origin, behind, raises⟩ := exists_raises_of_read
    (P := fun task => Behind task.text s)
    (fun _ _ behind enters => enters.reaches.behind.trans behind) (.refl s) refused
  exact ⟨raises.trueOf.1.of_behind behind, raises.trueOf.2⟩

end Reader

/-! ## The faults of a text -/

/-- A text is refused where its expression is, or behind that. In the second case the grammar
derives the expression, and what is refused is next behind it. -/
theorem readValue_eq_error_cases {limit : Nat} {s : List Char} {fault : Fault}
    (h : readValue limit s = .error fault) :
    (fault.TrueOf limit s ∧ ∀ c, fault ≠ .trailingInput c) ∨
      ∃ n t r c rest, fault = .trailingInput c ∧ n ≤ limit ∧
        Grammar.Derives n (.chain .additive) s t r ∧ skipSpaces r = c :: rest := by
  rw [readValue, Expression.read_eq] at h
  split at h
  · rename_i setback refused
    cases h
    exact .inl (Reader.trueOf_of_read refused)
  · contradiction
  · rename_i t c rest stopped
    cases h
    obtain ⟨n, r, le, derives, ends⟩ := Grammar.derives_of_read limit limit _ s _ _ stopped s rfl
    have trimmed := Grammar.skipSpaces_of_read_chain limit limit (.chain .additive) s _ _ stopped
    exact .inr ⟨n, t, r, c, rest, rfl, le, derives, ends.trans trimmed⟩

/-- The first character behind an expression could not have gone on with it. -/
theorem trueOf_trailingInput {limit n : Nat} {s r rest : List Char} {t : Expression} {c : Char}
    (h : Grammar.Derives n (.chain .additive) s t r) (ahead : skipSpaces r = c :: rest) :
    (Fault.trailingInput c).TrueOf limit s := by
  have member : c ∈ s := (Grammar.suffix_of_derives h).subset (mem_of_skipSpaces_eq_cons ahead)
  have noOperator : ∀ op : Operator, c ≠ op.symbol := by
    intro op same
    apply Grammar.not_next_operator_of_derives h op
    rw [next_iff op.symbol_ne_space, ahead, same]
    exact ⟨rest, rfl⟩
  refine ⟨member, ?_⟩
  simp only [List.mem_cons, List.not_mem_nil, or_false, not_or]
  exact ⟨ne_space_of_skipSpaces_eq_cons ahead, noOperator .addition, noOperator .subtraction,
    noOperator .multiplication, noOperator .division⟩

/-- Every fault tells the truth about the text that is refused for it. -/
theorem trueOf_of_readValue {limit : Nat} {s : List Char} {fault : Fault}
    (h : readValue limit s = .error fault) : fault.TrueOf limit s := by
  rcases readValue_eq_error_cases h with ⟨inside, -⟩ | ⟨n, t, r, c, rest, rfl, -, derives, ahead⟩
  · exact inside
  · exact trueOf_trailingInput derives ahead

/-- A word that names no function is refused behind its argument, by its own name. -/
theorem trueOf_unknownFunction_floored :
    readValue 3 "2*floor(1/3)".toList = .error (.unknownFunction "floor".toList) ∧
    (Fault.unknownFunction "floor".toList).TrueOf 3 "2*floor(1/3)".toList := by
  have refused : readValue 3 "2*floor(1/3)".toList = .error (.unknownFunction "floor".toList) := by
    decide +kernel
  exact ⟨refused, trueOf_of_readValue refused⟩

/-! ## Trailing input -/

/-- A text that is refused for what stands behind its expression has an expression in front of that,
and is refused in the same way whatever follows. -/
theorem readValue_split_trailing {limit : Nat} {s : List Char} {c : Char}
    (h : readValue limit s = .error (.trailingInput c)) :
    ∃ p r, s = p ++ c :: r ∧ (∃ v, readValue limit p = .ok v) ∧
      ∀ r', readValue limit (p ++ c :: r') = .error (.trailingInput c) := by
  rcases readValue_eq_error_cases h with ⟨-, other⟩ | ⟨n, t, r, d, rest, same, le, derives, ahead⟩
  · exact absurd rfl (other c)
  · cases same
    have noSpace := ne_space_of_skipSpaces_eq_cons ahead
    obtain ⟨u, rfl, exchange⟩ := Grammar.stretch_of_derives derives
    obtain ⟨i, shape⟩ := exists_eq_replicate_append_skipSpaces r
    rw [ahead] at shape
    subst shape
    refine ⟨u ++ List.replicate i ' ', rest, by simp only [List.append_assoc], ?_, ?_⟩
    · have inFront := exchange _ (Grammar.replaces_replicate i _)
      exact ⟨t.value, readValue_of_writes_of_le ⟨_, inFront, i, rfl⟩ le⟩
    · intro r'
      have replaced := (Grammar.replaces_cons_of_ne noSpace r' rest).append (List.replicate i ' ')
      rw [List.append_assoc]
      have next : skipSpaces (List.replicate i ' ' ++ c :: r') = c :: r' := by
        rw [skipSpaces_replicate_append, skipSpaces_of_ne noSpace]
      exact readValue_of_derives_trailing (exchange _ replaced) le next

/-- The comma ends an expression where no power is open, with any number of parentheses to close. -/
theorem readValue_split_trailing_comma :
    readValue 4 "(2*(3 ,4))".toList = .error (.trailingInput ',') ∧
    ∃ p r, "(2*(3 ,4))".toList = p ++ ',' :: r ∧ (∃ v, readValue 4 p = .ok v) ∧
      ∀ r', readValue 4 (p ++ ',' :: r') = .error (.trailingInput ',') := by
  have refused : readValue 4 "(2*(3 ,4))".toList = .error (.trailingInput ',') := by decide +kernel
  exact ⟨refused, readValue_split_trailing refused⟩

end Reckoner
