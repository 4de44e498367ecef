import Reckoner.Proofs.Dialogue.Echo
import Reckoner.Proofs.Dialogue.Limit
import Reckoner.Proofs.Expression.Faults

/-!
# One answer, one line

Messages repeat characters and words of the line as they are, so an answer is a line of its own only
because the line holds no line feed where there is a message at all: the screening refuses the
others, writing out shorthand inserts none (`lineFeed_not_mem_expand`), and all that a fault names
stands in the text that was read (`lineFeed_not_mem_message`). In UTF-8 no other character has the
byte of the line feed in it, so the output of a dialogue has as many of these bytes as answers.
-/

namespace Reckoner

/-! ## Written-out text -/

/-- A character that stands neither in the text nor in what is inserted does not stand in the
output. -/
theorem InsertsCalls.not_mem_substitute {pattern : Pattern} (calls : InsertsCalls pattern)
    {c : Char}
    (inserted : ∀ {t replacement rest}, pattern.Finds t replacement rest → c ∉ replacement)
    {s : List Char} (absent : c ∉ s) : c ∉ pattern.substitute s := by
  fun_induction Pattern.substitute pattern s with
  | case1 => exact absent
  | case2 d tail found recognised ih =>
    have finds : pattern.Finds (d :: tail) found.replacement found.rest :=
      ⟨found, recognised, rfl, rfl⟩
    have behind : c ∉ found.rest := fun member => absent ((calls.suffix finds).subset member)
    rw [List.mem_append, not_or]
    exact ⟨inserted finds, ih behind⟩
  | case3 d tail none ih =>
    rw [List.mem_cons, not_or] at absent ⊢
    exact ⟨absent.1, ih absent.2⟩

namespace Shorthand

theorem lineFeed_not_mem_flooredQuotient (a b : DigitRun) :
    '\n' ∉ flooredQuotient a.digits b.digits := by
  have divisor : '\n' ∉ '/' :: b.digits :=
    List.not_mem_cons_of_ne_of_not_mem (by decide) (b.not_mem rfl)
  exact List.not_mem_append (List.not_mem_append (List.not_mem_append (by decide) (a.not_mem rfl))
    divisor) (by decide)

theorem lineFeed_not_mem_powerCall (a b : DigitRun) : '\n' ∉ powerCall a.digits b.digits := by
  have exponent : '\n' ∉ ',' :: b.digits :=
    List.not_mem_cons_of_ne_of_not_mem (by decide) (b.not_mem rfl)
  exact List.not_mem_append (List.not_mem_append (List.not_mem_append (by decide) (a.not_mem rfl))
    exponent) (by decide)

theorem lineFeed_not_mem_expand {s : List Char} (absent : '\n' ∉ s) : '\n' ∉ expand s := by
  refine digitPower_insertsCalls.not_mem_substitute ?_ <|
    openFloor_insertsCalls.not_mem_substitute ?_ <|
    doubleSlash_insertsCalls.not_mem_substitute ?_ <|
    wholeDivision_insertsCalls.not_mem_substitute ?_ absent
  · intro t replacement rest finds
    obtain ⟨a, b, -, rfl⟩ := digitPower_finds_iff.1 finds
    exact lineFeed_not_mem_powerCall a b
  · intro t replacement rest finds
    obtain ⟨a, b, -, -, -, -, rfl, -⟩ := openFloor_finds_iff.1 finds
    exact lineFeed_not_mem_flooredQuotient a b
  · intro t replacement rest finds
    obtain ⟨-, rfl⟩ := doubleSlash_finds_iff.1 finds
    decide
  · intro t replacement rest finds
    obtain ⟨a, b, -, rfl⟩ := wholeDivision_finds_iff.1 finds
    exact lineFeed_not_mem_flooredQuotient a b

end Shorthand

/-! ## Messages -/

/-- What is inserted in a message about a text stands in the text. -/
theorem lineFeed_not_mem_message {limit : Nat} {s : List Char} {fault : Fault} (absent : '\n' ∉ s)
    (h : fault.TrueOf limit s) : '\n' ∉ fault.message := by
  cases fault with
  | unexpectedCharacter c =>
    have other : '\n' ≠ c := (ne_of_mem_of_not_mem h.1 absent).symm
    exact List.not_mem_append (by decide) (List.not_mem_cons_of_ne_of_not_mem other (by decide))
  | invalidNumber run =>
    obtain ⟨⟨u, w, rfl, -⟩, -⟩ := h
    have inside : '\n' ∉ run := fun member => absent (by simp [member])
    exact List.not_mem_append (List.not_mem_cons_of_ne_of_not_mem (by decide) inside) (by decide)
  | unknownFunction word =>
    obtain ⟨u, w, rfl, -⟩ := h
    have inside : '\n' ∉ word := fun member => absent (by simp [member])
    exact List.not_mem_append (by decide) inside
  | trailingInput c =>
    have other : '\n' ≠ c := (ne_of_mem_of_not_mem h.1 absent).symm
    exact List.not_mem_append (by decide) (List.not_mem_cons_of_ne_of_not_mem other (by decide))
  | abruptEnd => decide
  | nestingTooDeep depth =>
    have digits : '\n' ∉ Nat.toDigits 10 depth :=
      not_mem_of_all (Decimal.all_isDigit_toDigits depth) rfl
    exact List.not_mem_append (List.not_mem_append (by decide) digits) (by decide)
  | malformedExpression | tooManyOperators => exact h.elim

theorem lineFeed_not_mem_message_of_readValue {limit : Nat} {s : List Char} {fault : Fault}
    (absent : '\n' ∉ s) (h : readValue limit s = .error fault) : '\n' ∉ fault.message := by
  rcases readValue_eq_error_cases h with ⟨inside, -⟩ | ⟨n, t, r, c, rest, rfl, -, derives, ahead⟩
  · exact lineFeed_not_mem_message absent inside
  · have true : (Fault.trailingInput c).TrueOf limit s := trueOf_trailingInput derives ahead
    exact lineFeed_not_mem_message absent true

/-! ## Answers -/

theorem LineShape.lineFeed_not_mem {s : List Char} (h : LineShape s) : '\n' ∉ s := by
  obtain ⟨sign, first, middle, last, rfl, minus, digit, noFeed, final⟩ := h
  have noDigit : ∀ c : Char, c.isDigit = true → '\n' ≠ c := by
    rintro _ digit rfl
    contradiction
  have noSign : '\n' ∉ sign := by rcases minus with rfl | rfl <;> decide
  simp [noSign, noDigit _ digit, noFeed, noDigit _ final]

theorem Double.lineFeed_not_mem_text (v : Double) : '\n' ∉ v.text := by
  cases v with
  | nan => decide
  | infinity negative => cases negative <;> decide
  | finite negative m => exact not_mem_text negative m rfl

/-- Only a line without line feeds is answered with something that depends on it. -/
theorem Settings.lineFeed_not_mem_answer (settings : Settings) (line : List Char) :
    '\n' ∉ settings.answer line := by
  have result : '\n' ∉ settings.language.phrases.result.toList ++ ": ".toList := by
    cases settings.language <;> decide
  have error : '\n' ∉ settings.language.phrases.error.toList ++ ": ".toList := by
    cases settings.language <;> decide
  have invalid : '\n' ∉ settings.language.phrases.invalid.toList := by
    cases settings.language <;> decide
  unfold answer
  cases screened : screen settings.maxOperators line with
  | error fault => exact invalid
  | ok =>
    have absent := Shorthand.lineFeed_not_mem_expand (lineShape_of_screen screened).lineFeed_not_mem
    cases evaluated : evaluate settings.maxDepth line with
    | error fault =>
      exact List.not_mem_append error (lineFeed_not_mem_message_of_readValue absent evaluated)
    | ok v =>
      exact List.not_mem_append result v.lineFeed_not_mem_text

/-! ## Bytes -/

/-- The bytes of other characters are other ASCII codes, or have their highest bit set. -/
theorem lineFeed_mem_utf8EncodeChar_iff {c : Char} :
    RawLine.lineFeed ∈ String.utf8EncodeChar c ↔ c = '\n' := by
  constructor
  · intro member
    have code : c.val.toNat = 10 := by
      simp only [String.utf8EncodeChar, RawLine.lineFeed] at member
      split_ifs at member <;>
        simp only [List.mem_cons, List.not_mem_nil, or_false, ← UInt8.toNat_inj, UInt8.toNat_ofNat',
          UInt8.reduceToNat] at member <;>
        omega
    exact Char.ext (UInt32.toNat_inj.1 code)
  · rintro rfl
    decide

/-- A text has as many line feeds as its bytes. -/
theorem count_lineFeed_utf8 (s : List Char) : (utf8 s).count RawLine.lineFeed = s.count '\n' := by
  induction s with
  | nil => rfl
  | cons c s ih =>
    have first : (String.utf8EncodeChar c).count RawLine.lineFeed = if c = '\n' then 1 else 0 := by
      split
      · rename_i feed
        rw [feed]
        decide
      · rename_i other
        exact List.count_eq_zero.2 (mt lineFeed_mem_utf8EncodeChar_iff.1 other)
    rw [show utf8 (c :: s) = String.utf8EncodeChar c ++ utf8 s from rfl, List.count_append, first,
      ih, List.count_cons, Nat.add_comm]
    simp only [beq_iff_eq]

namespace Settings

variable (settings : Settings)

theorem count_lineFeed_script (texts : List (List Char)) :
    (settings.script texts).count '\n' = texts.length := by
  have prompt : settings.language.phrases.prompt.toList.count '\n' = 0 := by
    cases settings.language <;> decide
  induction texts with
  | nil => simpa [script] using prompt
  | cons text texts ih =>
    have answer := List.count_eq_zero.2 (settings.lineFeed_not_mem_answer text)
    simp only [script_cons, List.count_append, prompt, answer, ih, List.count_singleton_self,
      List.length_cons]
    omega

/-- An answer is one line, whatever the line that is answered. So the output has exactly as many
line feeds as lines have been answered, and an output that is cut off has no more. -/
theorem answers_are_lines :
    (∀ line answer, settings.respond line = some answer → '\n' ∉ answer) ∧
    (∀ input, (settings.converse none input).output.count RawLine.lineFeed =
      (settings.questions (RawLine.pieces input)).length) ∧
    ∀ n input, (settings.converse (some n) input).output.count RawLine.lineFeed ≤
      (settings.questions (RawLine.pieces input)).length := by
  have unlimited (input : List UInt8) :
      (settings.converse none input).output.count RawLine.lineFeed =
        (settings.questions (RawLine.pieces input)).length := by
    rw [converse, converseLines_none, count_lineFeed_utf8, count_lineFeed_script,
      RawLine.split_eq_pieces]
  refine ⟨?_, unlimited, ?_⟩
  · intro line answer responds
    unfold respond at responds
    split at responds
    · contradiction
    · cases responds
      exact settings.lineFeed_not_mem_answer line
  · intro n input
    have truncated : settings.converse (some n) input = (settings.converse none input).truncate n :=
      settings.truncates_converseLines (RawLine.split input) n
    rw [← unlimited, truncated, Transcript.truncate]
    split
    · exact (List.take_sublist n _).count_le RawLine.lineFeed
    · exact Nat.le_refl _

/-- Two lines are answered, one of them with a character of its own, and a third is no text. -/
theorem answers_are_lines_invalid :
    respond {} "1+é2".toList = some "Error: unexpected character, 'é', encountered".toList ∧
    '\n' ∉ "Error: unexpected character, 'é', encountered".toList ∧
    (converse {} none (utf8 "1+é2\n1\n".toList ++ [0xFF])).output.count RawLine.lineFeed = 2 := by
  have responds : respond {} "1+é2".toList =
      some "Error: unexpected character, 'é', encountered".toList := by decide +kernel
  obtain ⟨alone, counted, -⟩ := answers_are_lines {}
  have answered :
      (questions {} (RawLine.pieces (utf8 "1+é2\n1\n".toList ++ [0xFF]))).length = 2 := by
    decide +kernel
  exact ⟨responds, alone _ _ responds, (counted _).trans answered⟩

end Settings

end Reckoner
