import Reckoner.Proofs.Decimal.Spelling
import Reckoner.Proofs.Double.Naturals

/-!
# Results read back

A text of a result is read as a sign, a decimal numeral and an exponent, and rounded once
(`Double.ofText?`). What comes out is the number that was written (`text_lossless`), and no decimal
with fewer digits would do.
-/

namespace Reckoner

open Shortest (steps stepPlaces stepsPerUnit stepsPerUnit_pos unitsPerOne_mul_stepsPerUnit)

namespace Double

/-! ## Rounded decimals -/

/-- The double nearest to `coefficient * 10 ^ power`, with the given sign. -/
def ofDecimal (negative : Bool) (coefficient : Nat) (power : Int) : Double :=
  ofUnits negative (coefficient * 10 ^ power.toNat * unitsPerOne) (10 ^ (-power).toNat)

/-- The number of digits does not matter, only what they write. -/
theorem ofDecimal_mul_pow (negative : Bool) (c k : Nat) (x : Int) :
    ofDecimal negative (c * 10 ^ k) x = ofDecimal negative c (x + k) := by
  have exponents : k + x.toNat + (-(x + k)).toNat = (x + k).toNat + (-x).toNat := by omega
  have den (y : Int) : 0 < 10 ^ (-y).toNat := Nat.pow_pos (by decide)
  refine ofUnits_congr (den x) (den (x + k)) ?_
  calc c * 10 ^ k * 10 ^ x.toNat * unitsPerOne * 10 ^ (-(x + k)).toNat =
        c * unitsPerOne * 10 ^ (k + x.toNat + (-(x + k)).toNat) := by
          rw [Nat.pow_add, Nat.pow_add]
          ring
    _ = c * unitsPerOne * 10 ^ ((x + k).toNat + (-x).toNat) := by rw [exponents]
    _ = c * 10 ^ (x + k).toNat * unitsPerOne * 10 ^ (-x).toNat := by
          rw [Nat.pow_add]
          ring

theorem ofDecimal_zero (negative : Bool) (x : Int) : ofDecimal negative 0 x = zero negative := by
  have units : Magnitude.zero.units = 0 := unitsOfRank_zero
  have rounded := @ofUnits_units negative (10 ^ (-x).toNat) (Nat.pow_pos (by decide)) .zero
  rw [units, Nat.zero_mul] at rounded
  rw [ofDecimal, Nat.zero_mul, Nat.zero_mul, rounded, zero]

theorem value_eq_ofDecimal (numeral : Numeral) :
    numeral.value = ofDecimal false numeral.coefficient (0 - numeral.places) := by
  have whole : (0 - (numeral.places : Int)).toNat = 0 := by omega
  have places : (-(0 - (numeral.places : Int))).toNat = numeral.places := by omega
  rw [ofDecimal, whole, places, Nat.pow_zero, Nat.mul_one, Numeral.value, ofFraction, Nat.pow_eq]

/-- The shortest decimal is rounded to its magnitude. -/
theorem ofDecimal_steps (negative : Bool) (m : Magnitude) :
    ofDecimal negative (steps m.rank) (-(stepPlaces : Int)) = .finite negative m := by
  have reads := Shortest.readsBack_iff.1 (Shortest.chosen_steps m.rank).reads
  have whole : (-(stepPlaces : Int)).toNat = 0 := by omega
  have places : (- -(stepPlaces : Int)).toNat = stepPlaces := by omega
  rw [ofDecimal, whole, places, ofUnits_congr (Nat.pow_pos (by decide)) stepsPerUnit_pos,
    ofUnits_eq_finite_iff]
  · exact ⟨rfl, reads⟩
  · rw [Nat.pow_zero, Nat.mul_one, Nat.mul_assoc, unitsPerOne_mul_stepsPerUnit]

end Double

namespace Magnitude

/-- The shortest decimal of a magnitude, as digits and a power of ten. -/
theorem ofDecimal_ofMagnitude (negative : Bool) (m : Magnitude) :
    Double.ofDecimal negative (Nat.ofDigitChars 10 (Decimal.ofMagnitude m).digits 0)
      ((Decimal.ofMagnitude m).exponent + 1 - (Decimal.ofMagnitude m).digits.length) =
      .finite negative m := by
  obtain ⟨k, split⟩ := Decimal.exists_append_zeros (Nat.toDigits 10 (steps m.rank))
  have value : steps m.rank =
      Nat.ofDigitChars 10 (Decimal.dropTrailingZeros (Nat.toDigits 10 (steps m.rank))) 0 *
        10 ^ k := by
    conv_lhs => rw [← @Nat.ofDigitChars_ten_toDigits (steps m.rank), split]
    rw [Nat.ofDigitChars_append, Nat.ofDigitChars_replicate_zero, Nat.mul_comm]
  have length := congrArg List.length split
  rw [List.length_append, List.length_replicate] at length
  have rounded := Double.ofDecimal_steps negative m
  rw [value, Double.ofDecimal_mul_pow] at rounded
  have power : (Decimal.ofMagnitude m).exponent + 1 - (Decimal.ofMagnitude m).digits.length =
      -(stepPlaces : Int) + k := by
    simp only [Decimal.ofMagnitude, stepPlaces]
    omega
  rwa [power]

end Magnitude

namespace Decimal.Spells

variable {d : Decimal} {whole behind : List Char} {power : Int}

/-- However the zeros around the digits are chosen, the value is the same. -/
theorem ofDecimal_eq (spells : Spells d whole behind power) (negative : Bool) :
    Double.ofDecimal negative (Nat.ofDigitChars 10 (whole ++ behind) 0) (power - behind.length) =
      Double.ofDecimal negative (Nat.ofDigitChars 10 d.digits 0)
        (d.exponent + 1 - d.digits.length) := by
  obtain ⟨before, after, same, place⟩ := spells.digits
  rw [same, Nat.ofDigitChars_append, Nat.ofDigitChars_append, Nat.ofDigitChars_replicate_zero,
    Nat.ofDigitChars_replicate_zero, Nat.mul_zero, Nat.mul_comm, Double.ofDecimal_mul_pow, place]

end Decimal.Spells

namespace Double

/-! ## A reader of results -/

/-- Digits, as a natural. -/
def readNatural? (s : List Char) : Option Nat :=
  if s ≠ [] ∧ s.all Char.isDigit = true then some (Nat.ofDigitChars 10 s 0) else none

/-- Digits, as an integer; a minus may stand in front. -/
def readInteger? : List Char → Option Int
  | '-' :: s => (readNatural? s).map fun n : Nat => -(n : Int)
  | s => (readNatural? s).map fun n : Nat => (n : Int)

/-- What stands behind the digits: nothing, or a power of ten. -/
def readExponent? : List Char → Option Int
  | [] => some 0
  | 'E' :: s => readInteger? s
  | _ => none

/-- A decimal numeral with or without an exponent, rounded once, or the word for infinity. -/
def readUnsigned? (negative : Bool) (s : List Char) : Option Double :=
  match Numeral.ofRun? (s.takeWhile isDigitOrDot) with
  | some n => (readExponent? (s.dropWhile isDigitOrDot)).map fun power =>
      ofDecimal negative n.coefficient (power - n.places)
  | none => if s = "Infinity".toList then some (.infinity negative) else none

/-- The number that a text writes; a minus may stand in front. -/
def ofText? : List Char → Option Double
  | '-' :: s => readUnsigned? true s
  | s => readUnsigned? false s

/-- The digits of a text in front of an exponent, without the zeros at either end. -/
def significantDigits (s : List Char) : List Char :=
  Decimal.dropTrailingZeros
    (((s.takeWhile (· != 'E')).filter Char.isDigit).dropWhile (· == '0'))

theorem readNatural?_toDigits (n : Nat) : readNatural? (Nat.toDigits 10 n) = some n := by
  rw [readNatural?, if_pos ⟨Nat.toDigits_ne_nil, Decimal.all_isDigit_toDigits n⟩,
    Nat.ofDigitChars_ten_toDigits]

theorem readInteger?_of_ne_minus {c : Char} {s : List Char} (noMinus : c ≠ '-') :
    readInteger? (c :: s) = (readNatural? (c :: s)).map fun n : Nat => (n : Int) := by
  unfold readInteger?
  split
  · rename_i same
    cases same
    contradiction
  · rfl

theorem readInteger?_integer (z : Int) : readInteger? (Decimal.integer z) = some z := by
  unfold Decimal.integer
  split
  · rw [readInteger?, readNatural?_toDigits, Option.map_some, Option.some.injEq]
    omega
  · have read := readNatural?_toDigits z.natAbs
    obtain ⟨c, s, digits⟩ := List.exists_cons_of_ne_nil (@Nat.toDigits_ne_nil z.natAbs 10)
    have all := Decimal.all_isDigit_toDigits z.natAbs
    have noMinus : c ≠ '-' := by
      rintro rfl
      rw [digits] at all
      exact absurd all Bool.false_ne_true
    rw [digits] at read ⊢
    rw [readInteger?_of_ne_minus noMinus, read, Option.map_some, Option.some.injEq]
    omega

section Dotted

variable {whole behind rest : List Char} (digits : (whole ++ behind).all Char.isDigit = true)
  (nonempty : whole ≠ [])
include digits nonempty

theorem readUnsigned?_dotted (negative : Bool) (stops : Stops isDigitOrDot rest) :
    readUnsigned? negative (whole ++ '.' :: behind ++ rest) = (readExponent? rest).map fun power =>
      ofDecimal negative (Nat.ofDigitChars 10 (whole ++ behind) 0) (power - behind.length) := by
  have all := (Numeral.dotted whole behind digits nonempty).all_isDigitOrDot
  have numeral := Numeral.ofRun?_run (Numeral.dotted whole behind digits nonempty)
  rw [Numeral.run_dotted] at all numeral
  rw [readUnsigned?, takeWhile_append_of_stops all stops, dropWhile_append_of_stops all stops,
    numeral]
  dsimp only
  rw [Numeral.coefficient_dotted, Numeral.places_dotted]

omit nonempty in
theorem significantDigits_dotted (stops : Stops (· != 'E') rest) :
    significantDigits (whole ++ '.' :: behind ++ rest) =
      Decimal.dropTrailingZeros ((whole ++ behind).dropWhile (· == '0')) := by
  have noExponent : 'E' ∉ whole ++ '.' :: behind := by
    intro member
    have inside : 'E' ∈ whole ++ behind := by simpa using member
    exact not_mem_of_all digits rfl inside
  rw [significantDigits, takeWhile_append_of_stops (all_ne_of_not_mem noExponent) stops,
    Numeral.filter_isDigit_dotted digits]

end Dotted

theorem significantDigits_minus (s : List Char) :
    significantDigits ('-' :: s) = significantDigits s := by
  simp [significantDigits]

end Double

/-! ## Results -/

namespace Magnitude

variable {m : Magnitude}

theorem text_of_isZero (zero : m.isZero = true) : m.text = ['0'] ++ '.' :: ['0'] ++ [] := by
  rw [text, zero, if_pos rfl]
  rfl

/-- Whether a magnitude is written without an exponent. -/
def isPlain (m : Magnitude) : Bool := m.isZero || m.isPositional

/-- The text of a magnitude, taken apart: digits on both sides of a dot, and the rest, which is
empty or an exponent. Together they write a decimal that is rounded to the magnitude. -/
structure Written (m : Magnitude) (whole behind : List Char) (power : Int) (rest : List Char) :
    Prop where
  whole_ne_nil : whole ≠ []
  behind_ne_nil : behind ≠ []
  all_isDigit : (whole ++ behind).all Char.isDigit = true
  text : m.text = whole ++ '.' :: behind ++ rest
  rest_eq : m.isPlain = true ∧ power = 0 ∧ rest = [] ∨
    m.isPlain = false ∧ rest = 'E' :: Decimal.integer power
  value : ∀ negative, Double.ofDecimal negative (Nat.ofDigitChars 10 (whole ++ behind) 0)
    (power - behind.length) = .finite negative m

theorem exists_written (m : Magnitude) :
    ∃ whole behind power rest, Written m whole behind power rest := by
  cases zero : m.isZero with
  | true =>
    refine ⟨['0'], ['0'], 0, [], ?_⟩
    have least : m = .zero := by
      cases m
      cases beq_iff_eq.1 zero
      rfl
    refine ⟨List.cons_ne_nil _ _, List.cons_ne_nil _ _, rfl, text_of_isZero zero, ?_,
      fun negative => ?_⟩
    · exact .inl ⟨by rw [isPlain, zero, Bool.true_or], rfl, rfl⟩
    · have value : Nat.ofDigitChars 10 (['0'] ++ ['0']) 0 = 0 := by decide
      rw [value, Double.ofDecimal_zero, least, Double.zero]
  | false =>
    obtain ⟨whole, behind, power, spells, written⟩ := exists_text zero
    have kind : m.isPlain = m.isPositional := by rw [isPlain, zero, Bool.false_or]
    have digits := spells.all_isDigit (significant_ofMagnitude zero).all_isDigit
    have value (negative : Bool) :=
      (spells.ofDecimal_eq negative).trans (ofDecimal_ofMagnitude negative m)
    rcases written with ⟨positional, rfl, written⟩ | ⟨scientific, written⟩
    · exact ⟨whole, behind, 0, [], spells.whole_ne_nil, spells.behind_ne_nil, digits,
        by rw [written, List.append_nil], .inl ⟨kind.trans positional, rfl, rfl⟩, value⟩
    · exact ⟨whole, behind, power, _, spells.whole_ne_nil, spells.behind_ne_nil, digits, written,
        .inr ⟨kind.trans scientific, rfl⟩, value⟩

namespace Written

variable {whole behind rest : List Char} {power : Int}

theorem stops_rest (written : Written m whole behind power rest) : Stops isDigitOrDot rest := by
  rcases written.rest_eq with ⟨-, -, rfl⟩ | ⟨-, rfl⟩
  · exact stops_nil
  · exact stops_cons_iff.2 rfl

theorem readExponent?_rest (written : Written m whole behind power rest) :
    Double.readExponent? rest = some power := by
  rcases written.rest_eq with ⟨-, rfl, rfl⟩ | ⟨-, rfl⟩
  · rfl
  · exact Double.readInteger?_integer power

end Written

/-- A text begins with a digit, so never with a minus. -/
theorem exists_text_eq_cons (m : Magnitude) : ∃ c s, m.text = c :: s ∧ c.isDigit = true := by
  obtain ⟨whole, behind, power, rest, written⟩ := m.exists_written
  obtain ⟨c, s, shape⟩ := List.exists_cons_of_ne_nil written.whole_ne_nil
  refine ⟨c, s ++ '.' :: behind ++ rest, by rw [written.text, shape]; rfl, ?_⟩
  exact List.all_eq_true.1 written.all_isDigit c (by simp [shape])

/-- The text of a magnitude is read as that magnitude, with the sign in front of it. -/
theorem readUnsigned?_text (negative : Bool) (m : Magnitude) :
    Double.readUnsigned? negative m.text = some (.finite negative m) := by
  obtain ⟨whole, behind, power, rest, written⟩ := m.exists_written
  rw [written.text, Double.readUnsigned?_dotted written.all_isDigit written.whole_ne_nil negative
    written.stops_rest, written.readExponent?_rest, Option.map_some, written.value]

/-- The digits of a text are those of the shortest decimal. -/
theorem significantDigits_text (nonzero : m.isZero = false) :
    Double.significantDigits m.text = (Decimal.ofMagnitude m).digits := by
  have sig := significant_ofMagnitude nonzero
  obtain ⟨whole, behind, power, spells, written⟩ := exists_text nonzero
  have digits := spells.all_isDigit sig.all_isDigit
  rw [← spells.significant sig]
  rcases written with ⟨-, -, written⟩ | ⟨-, written⟩
  · rw [written, ← List.append_nil (whole ++ _), Double.significantDigits_dotted digits stops_nil]
  · rw [written, Double.significantDigits_dotted digits (stops_cons_iff.2 rfl)]

end Magnitude

namespace Double

theorem text_negative (m : Magnitude) : (finite true m).text = '-' :: m.text := by
  rw [text, if_pos rfl]

theorem text_positive (m : Magnitude) : (finite false m).text = m.text := by
  rw [text, if_neg Bool.false_ne_true]

theorem ofText?_text {v : Double} (notNan : v ≠ .nan) : ofText? v.text = some v := by
  cases v with
  | nan => contradiction
  | infinity negative => cases negative <;> rfl
  | finite negative m =>
    have read := m.readUnsigned?_text negative
    cases negative with
    | true => rw [text_negative, ofText?, read]
    | false =>
      obtain ⟨c, s, written, digit⟩ := m.exists_text_eq_cons
      have noMinus : c ≠ '-' := by
        rintro rfl
        exact absurd digit (by decide)
      rw [written] at read
      rw [text_positive, written, ← read]
      unfold ofText?
      split
      · rename_i same
        cases same
        contradiction
      · rfl

/-- No decimal that is rounded to a number has fewer digits than its text. -/
theorem length_significantDigits_le {v : Double} {negative : Bool} {c : Nat} {x : Int}
    (rounded : ofDecimal negative c x = v) :
    (significantDigits v.text).length ≤ (Nat.toDigits 10 c).length := by
  have none {s : List Char} (empty : significantDigits s = []) :
      (significantDigits s).length ≤ (Nat.toDigits 10 c).length := by
    rw [empty]
    exact Nat.zero_le _
  cases v with
  | nan => exact none rfl
  | infinity negative => cases negative <;> exact none rfl
  | finite sign m =>
    have unsigned : significantDigits (finite sign m).text = significantDigits m.text := by
      cases sign with
      | true => rw [text_negative, significantDigits_minus]
      | false => rw [text_positive]
    rw [unsigned]
    cases zero : m.isZero with
    | true => exact none (by rw [Magnitude.text_of_isZero zero]; rfl)
    | false =>
      rw [Magnitude.significantDigits_text zero]
      exact Shortest.length_digits_le (ofUnits_eq_finite_iff.1 rounded).2 (Magnitude.rank_pos zero)

/-- Nothing is lost when a result is written. Its text is read as the same number again, the sign of
zero included, and no decimal with fewer digits than the text would be. So different numbers have
different texts. -/
theorem text_lossless {v : Double} (notNan : v ≠ .nan) :
    ofText? v.text = some v ∧
    (∀ negative coefficient power, ofDecimal negative coefficient power = v →
      (significantDigits v.text).length ≤ (Nat.toDigits 10 coefficient).length) ∧
    ∀ w, w ≠ .nan → w ≠ v → w.text ≠ v.text := by
  refine ⟨ofText?_text notNan, fun _ _ _ => length_significantDigits_le, ?_⟩
  intro w notNan' different same
  have read := ofText?_text notNan'
  rw [same, ofText?_text notNan] at read
  exact different (Option.some.inj read).symm

/-- The negative number nearest to zero has a text of one significant digit, and is read from it. -/
theorem text_lossless_leastNegative :
    (finite true ⟨1, by decide⟩).text = "-5.0E-324".toList ∧
      ofText? "-5.0E-324".toList = some (finite true ⟨1, by decide⟩) := by
  have written : (finite true ⟨1, by decide⟩).text = "-5.0E-324".toList := by decide +kernel
  have lossless := text_lossless (v := finite true ⟨1, by decide⟩) (by decide)
  rw [written] at lossless
  exact ⟨written, lossless.1⟩

end Double

end Reckoner
