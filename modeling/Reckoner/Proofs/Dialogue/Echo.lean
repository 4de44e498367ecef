import Reckoner.Dialogue.Response
import Reckoner.Proofs.Decimal.Shape
import Reckoner.Proofs.Screening.Decision
import Reckoner.Proofs.Shorthand.NormalForm
import Reckoner.Proofs.Text.LowerCase

/-!
# Results as questions

A result can be typed in again. Every text of a finite number passes the screening and holds no
shorthand. One without an exponent is read as the number it was written for; one with an exponent is
read up to its `E`, and refused there. The words for the other numbers do not look like expressions
(`Settings.respond_text`).
-/

namespace Reckoner

/-! ## The text of a magnitude, character by character -/

/-- The characters of finite results. -/
def isResultCharacter (c : Char) : Bool := c.isDigit || c == '.' || c == 'E' || c == '-'

theorem Decimal.exists_integer (z : Int) :
    ∃ sign, (sign = [] ∨ sign = ['-']) ∧ Decimal.integer z = sign ++ Nat.toDigits 10 z.natAbs := by
  unfold Decimal.integer
  split
  · exact ⟨['-'], .inr rfl, rfl⟩
  · exact ⟨[], .inl rfl, rfl⟩

theorem all_isResultCharacter {s : List Char} (digits : s.all Char.isDigit = true) :
    s.all isResultCharacter = true := by
  refine List.all_eq_true.2 fun c member => ?_
  simp only [isResultCharacter, List.all_eq_true.1 digits c member, Bool.true_or]

namespace Magnitude.Written

variable {m : Magnitude} {whole behind rest : List Char} {power : Int}
  (written : Written m whole behind power rest)
include written

theorem all_isDigit_whole : whole.all Char.isDigit = true := by
  have digits := written.all_isDigit
  rw [List.all_append, Bool.and_eq_true] at digits
  exact digits.1

theorem all_isDigit_behind : behind.all Char.isDigit = true := by
  have digits := written.all_isDigit
  rw [List.all_append, Bool.and_eq_true] at digits
  exact digits.2

theorem all_text : m.text.all isResultCharacter = true := by
  have ends : rest.all isResultCharacter = true := by
    rcases written.rest_eq with ⟨-, -, rfl⟩ | ⟨-, rfl⟩
    · rfl
    · obtain ⟨sign, mark, shape⟩ := Decimal.exists_integer power
      rw [shape, List.all_cons, List.all_append,
        all_isResultCharacter (Decimal.all_isDigit_toDigits _)]
      rcases mark with rfl | rfl <;> rfl
  rw [written.text, List.all_append, List.all_append, List.all_cons, ends,
    all_isResultCharacter written.all_isDigit_whole,
    all_isResultCharacter written.all_isDigit_behind]
  rfl

/-- A text ends with a digit, of the exponent if there is one, and otherwise behind the dot. -/
theorem exists_last_digits :
    ∃ front last, '.' :: behind ++ rest = front ++ last ∧ last ≠ [] ∧
      last.all Char.isDigit = true := by
  rcases written.rest_eq with ⟨-, -, rfl⟩ | ⟨-, rfl⟩
  · exact ⟨['.'], behind, List.append_nil _, written.behind_ne_nil, written.all_isDigit_behind⟩
  · obtain ⟨sign, -, shape⟩ := Decimal.exists_integer power
    refine ⟨'.' :: behind ++ 'E' :: sign, Nat.toDigits 10 power.natAbs, ?_, Nat.toDigits_ne_nil,
      Decimal.all_isDigit_toDigits _⟩
    rw [shape]
    simp

/-- Only an exponent can have an operator in it, its minus. -/
theorem countOperators_text_le : countOperators m.text ≤ 1 := by
  have ends : countOperators rest ≤ 1 := by
    rcases written.rest_eq with ⟨-, -, rfl⟩ | ⟨-, rfl⟩
    · exact Nat.zero_le 1
    · obtain ⟨sign, mark, shape⟩ := Decimal.exists_integer power
      rw [shape, countOperators_cons, countOperators_append,
        countOperators_of_all_isDigit (Decimal.all_isDigit_toDigits _)]
      rcases mark with rfl | rfl <;> decide
  rw [written.text, countOperators_append, countOperators_append, countOperators_cons,
    countOperators_of_all_isDigit written.all_isDigit_whole,
    countOperators_of_all_isDigit written.all_isDigit_behind]
  simpa [isOperatorSymbol] using ends

end Magnitude.Written

/-! ## A finite result as a line -/

section Finite

variable (negative : Bool) (m : Magnitude)

theorem all_text : (Double.finite negative m).text.all isResultCharacter = true := by
  obtain ⟨whole, behind, power, rest, written⟩ := m.exists_written
  have sign : (signMark negative).all isResultCharacter = true := by cases negative <;> rfl
  rw [Double.text_finite, List.all_append, sign, written.all_text]
  rfl

theorem not_mem_text {c : Char} (other : isResultCharacter c = false) :
    c ∉ (Double.finite negative m).text :=
  not_mem_of_all (all_text negative m) other

theorem isWellShaped_text : isWellShaped (Double.finite negative m).text = true := by
  obtain ⟨whole, behind, power, rest, written⟩ := m.exists_written
  obtain ⟨front, last, ends, nonempty, digits⟩ := written.exists_last_digits
  obtain ⟨c, s, shape⟩ := List.exists_cons_of_ne_nil written.whole_ne_nil
  have text : m.text = c :: (s ++ front ++ last) := by
    rw [written.text, List.append_assoc, ends, shape]
    simp
  have digit : c.isDigit = true := by
    have first := written.all_isDigit_whole
    rw [shape, List.all_cons, Bool.and_eq_true] at first
    exact first.1
  have noFeed : (s ++ front ++ last).all (· != '\n') = true := by
    refine all_ne_of_not_mem fun member => ?_
    refine not_mem_text negative m (c := '\n') rfl ?_
    rw [Double.text_finite, text]
    exact List.mem_append_right _ (List.mem_cons_of_mem c member)
  have lastDigit : (s ++ front ++ last).getLast?.any Char.isDigit = true := by
    rw [List.getLast?_append_of_ne_nil _ nonempty, List.getLast?_eq_some_getLast nonempty]
    exact List.all_eq_true.1 digits _ (List.getLast_mem nonempty)
  cases negative with
  | true => rw [Double.text_negative, text, isWellShaped_minus digit, noFeed, lastDigit]; rfl
  | false => rw [Double.text_positive, text, isWellShaped_cons digit, noFeed, lastDigit]; rfl

theorem screen_text {maxOperators : Nat} (room : 2 ≤ maxOperators) :
    screen maxOperators (Double.finite negative m).text = .ok () := by
  obtain ⟨whole, behind, power, rest, written⟩ := m.exists_written
  have few : countOperators (Double.finite negative m).text ≤ 2 := by
    have unsigned := written.countOperators_text_le
    have one : countOperators (signMark negative) ≤ 1 := by cases negative <;> decide
    rw [Double.text_finite, countOperators_append]
    omega
  rw [screen, isWellShaped_text, if_neg (by decide), if_neg (by omega)]

theorem isExit_text (settings : Settings) :
    settings.isExit (Double.finite negative m).text = false := by
  obtain ⟨whole, behind, power, rest, written⟩ := m.exists_written
  rw [Settings.isExit, beq_eq_false_iff_ne]
  intro same
  -- the exit words have no dot
  have dot : '.' ∈ lowerCaseText (Double.finite negative m).text := by
    refine (lowered_lowerCaseText _).mem (c := '.') ?_ (by decide) (by decide +kernel)
    rw [Double.text_finite, written.text]
    simp
  rw [same] at dot
  revert dot
  cases settings.language <;> decide +kernel

theorem expand_text :
    Shorthand.expand (Double.finite negative m).text = (Double.finite negative m).text :=
  Shorthand.expand_of_isNormal
    (Shorthand.isNormal_of_not_mem (not_mem_text negative m rfl) (not_mem_text negative m rfl))

end Finite

/-! ## Reading the line -/

/-- A numeral behind a sign, as it is laid out. -/
def signedLayout (negative : Bool) (numeral : Numeral) : Layout :=
  if negative then .signed .negative (.literal numeral) else .literal numeral

section SignedLayout

variable (negative : Bool) (numeral : Numeral)

theorem nesting_signedLayout_le : (signedLayout negative numeral).nesting ≤ 2 := by
  cases negative <;> simp [signedLayout, Layout.nesting]

theorem fits_signedLayout : (signedLayout negative numeral).Fits .expression := by
  cases negative <;> trivial

theorem flatten_lexemes_signedLayout :
    (signedLayout negative numeral).lexemes.flatten = signMark negative ++ numeral.run := by
  cases negative <;> simp [signedLayout, signMark, Layout.lexemes, Sign.symbol]

theorem value_signedLayout {m : Magnitude} (value : numeral.value = .finite false m) :
    (signedLayout negative numeral).tree.value = .finite negative m := by
  cases negative with
  | true =>
    have opposite : (signedLayout true numeral).tree.value = -numeral.value := rfl
    rw [opposite, value]
    rfl
  | false => exact value

end SignedLayout

/-- Up to the rest behind its digits a text writes an expression, which has the value of the number
if there is no exponent. -/
theorem Magnitude.Written.derives {m : Magnitude} {whole behind rest : List Char} {power : Int}
    (written : Written m whole behind power rest) (negative : Bool) :
    ∃ n t, n ≤ 2 ∧ Grammar.Derives n (.chain .additive) (Double.finite negative m).text t rest ∧
      (power = 0 → t.value = .finite negative m) := by
  let numeral := Numeral.dotted whole behind written.all_isDigit written.whole_ne_nil
  have noOperator (op : Operator) : ¬ Next op.symbol rest := by
    rw [next_iff op.symbol_ne_space]
    rcases written.rest_eq with ⟨-, -, rfl⟩ | ⟨-, rfl⟩
    · rintro ⟨_, same⟩
      cases same
    · rw [skipSpaces_of_ne (by decide)]
      rintro ⟨_, same⟩
      have symbol := (List.cons.inj same).1
      cases op <;> exact absurd symbol (by decide)
  have text : (Double.finite negative m).text =
      (signedLayout negative numeral).lexemes.flatten ++ rest := by
    rw [flatten_lexemes_signedLayout, Double.text_finite, written.text, Numeral.run_dotted]
    simp only [List.append_assoc]
  have stands := Grammar.stands_of_fits _ .expression _ rest (fits_signedLayout negative numeral)
    (.flatten _) ⟨written.stops_rest, fun op _ => noOperator op⟩
  refine ⟨_, (signedLayout negative numeral).tree, nesting_signedLayout_le negative numeral, ?_,
    fun zero => ?_⟩
  · rw [text]
    exact Grammar.Heads.derives stands fun op _ => noOperator op
  · apply value_signedLayout
    rw [Double.value_eq_ofDecimal, Numeral.coefficient_dotted, Numeral.places_dotted, ← zero,
      written.value]

section Evaluation

variable {limit : Nat} (room : 2 ≤ limit) (negative : Bool) {m : Magnitude}
include room

/-- A result without an exponent is read as itself. -/
theorem evaluate_text_of_isPlain (plain : m.isPlain = true) :
    evaluate limit (Double.finite negative m).text = .ok (.finite negative m) := by
  obtain ⟨whole, behind, power, rest, written⟩ := m.exists_written
  obtain ⟨n, t, le, derives, value⟩ := written.derives negative
  rcases written.rest_eq with ⟨-, zero, rfl⟩ | ⟨scientific, -⟩
  · have writes : Grammar.Writes n _ t := ⟨[], derives, 0, rfl⟩
    rw [evaluate, expand_text, readValue_of_writes_of_le writes (Nat.le_trans le room), value zero]
  · rw [plain] at scientific
    contradiction

/-- A result with an exponent is refused at its `E`. -/
theorem evaluate_text_of_not_isPlain (notPlain : m.isPlain = false) :
    evaluate limit (Double.finite negative m).text = .error (.trailingInput 'E') := by
  obtain ⟨whole, behind, power, rest, written⟩ := m.exists_written
  obtain ⟨n, t, le, derives, -⟩ := written.derives negative
  rcases written.rest_eq with ⟨plain, -⟩ | ⟨-, rfl⟩
  · rw [notPlain] at plain
    contradiction
  · rw [evaluate, expand_text]
    exact readValue_of_derives_trailing derives (Nat.le_trans le room)
      (skipSpaces_of_ne (by decide) _)

end Evaluation

namespace Settings

variable (settings : Settings)

theorem respond_of_evaluate_ok {line : List Char} {value : Double}
    (stays : settings.isExit line = false) (passes : screen settings.maxOperators line = .ok ())
    (evaluated : evaluate settings.maxDepth line = .ok value) :
    settings.respond line =
      some (settings.language.phrases.result.toList ++ ": ".toList ++ value.text) := by
  rw [respond, stays, if_neg Bool.false_ne_true, answer]
  simp only [passes, evaluated]

theorem respond_of_evaluate_error {line : List Char} {fault : Fault}
    (stays : settings.isExit line = false) (passes : screen settings.maxOperators line = .ok ())
    (refused : evaluate settings.maxDepth line = .error fault) :
    settings.respond line =
      some (settings.language.phrases.error.toList ++ ": ".toList ++ fault.message) := by
  rw [respond, stays, if_neg Bool.false_ne_true, answer]
  simp only [passes, refused]

theorem respond_of_not_isWellShaped {line : List Char} (stays : settings.isExit line = false)
    (shapeless : isWellShaped line = false) :
    settings.respond line = some settings.language.phrases.invalid.toList := by
  have refused : screen settings.maxOperators line = .error .malformedExpression := by
    rw [screen, shapeless]
    rfl
  rw [respond, stays, if_neg Bool.false_ne_true, answer]
  simp only [refused]

/-- A calculator reads its own results. Zero, and what is at least one thousandth and less than ten
million, is echoed and evaluated to itself; every other finite number is refused at the `E` of its
exponent, and what is not finite does not look like an expression. -/
theorem respond_text (operators : 2 ≤ settings.maxOperators) (depth : 2 ≤ settings.maxDepth)
    (v : Double) :
    match v with
    | .finite _ m =>
      (m.InPlainRange →
        settings.respond v.text =
          some (settings.language.phrases.result.toList ++ ": ".toList ++ v.text) ∧
        evaluate settings.maxDepth v.text = .ok v) ∧
      (¬ m.InPlainRange →
        settings.respond v.text = some (settings.language.phrases.error.toList ++ ": ".toList ++
          (Fault.trailingInput 'E').message))
    | .nan | .infinity _ =>
      settings.respond v.text = some settings.language.phrases.invalid.toList := by
  cases v with
  | nan =>
    have stays : settings.isExit "NaN".toList = false := by
      unfold isExit
      cases settings.language <;> decide +kernel
    exact settings.respond_of_not_isWellShaped stays (by decide)
  | infinity negative =>
    have stays : settings.isExit (Double.infinity negative).text = false := by
      unfold isExit
      cases settings.language <;> cases negative <;> decide +kernel
    exact settings.respond_of_not_isWellShaped stays (by cases negative <;> decide)
  | finite negative m =>
    have stays := isExit_text negative m settings
    have passes := screen_text negative m operators
    refine ⟨fun plain => ?_, fun scientific => ?_⟩
    · have evaluated := evaluate_text_of_isPlain depth negative (Magnitude.isPlain_iff.2 plain)
      exact ⟨settings.respond_of_evaluate_ok stays passes evaluated, evaluated⟩
    · rw [← Magnitude.isPlain_iff, Bool.not_eq_true] at scientific
      exact settings.respond_of_evaluate_error stays passes
        (evaluate_text_of_not_isPlain depth negative scientific)

/-- The double nearest to one thousandth, with which plain results begin. -/
def thousandth : Magnitude := ⟨nearestRank unitsPerOne 1000, by decide +kernel⟩

/-- One thousandth is echoed, and the negative number nearest to zero is refused. -/
theorem respond_text_thousandth :
    respond ⟨.english, 2, 2⟩ "0.001".toList = some "Result: 0.001".toList ∧
      respond ⟨.english, 2, 2⟩ "-5.0E-324".toList =
        some "Error: did not expect 'E' after the expression".toList := by
  have first := respond_text ⟨.english, 2, 2⟩ (by decide) (by decide) (.finite false thousandth)
  have last := respond_text ⟨.english, 2, 2⟩ (by decide) (by decide) (.finite true ⟨1, by decide⟩)
  have inside : thousandth.InPlainRange := Magnitude.isPlain_iff.1 (by decide +kernel)
  have outside : ¬ Magnitude.InPlainRange ⟨1, by decide⟩ := by
    rw [← Magnitude.isPlain_iff]
    decide +kernel
  have text : (Double.finite false thousandth).text = "0.001".toList := by decide +kernel
  have textLeast : (Double.finite true ⟨1, by decide⟩).text = "-5.0E-324".toList := by
    decide +kernel
  have echoed := (first.1 inside).1
  have refused := last.2 outside
  rw [text] at echoed
  rw [textLeast] at refused
  exact ⟨echoed, refused⟩

end Settings

end Reckoner
