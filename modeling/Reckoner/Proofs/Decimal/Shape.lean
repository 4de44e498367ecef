import Reckoner.Proofs.Decimal.Reading

/-!
# The shape of a result

Every text of a finite number has one of two shapes (`Magnitude.shape_text`). Zero and the numbers
from one thousandth up to, and not including, ten million are written with a dot between digits; all
others with one digit in front of the dot and an exponent.

The choice is made on the exact magnitude, while the exponent is that of its shortest decimal. They
agree because the two bounds are themselves decimals of few digits: a decimal that reads back as a
magnitude on one side of a bound is on that side of it too (`exponent_ofMagnitude`).
-/

namespace Reckoner

open Shortest (steps stepPlaces stepsPerUnit stepsPerUnit_pos unitsPerOne_mul_stepsPerUnit)

/-! ## Which results have no exponent -/

namespace Magnitude

variable {m : Magnitude} {k : Nat}

theorem thousandth_le_iff :
    nearestRank unitsPerOne 1000 ≤ m.rank ↔ unitsPerOne ≤ 1000 * m.units := by
  constructor
  · intro le
    -- the nearest magnitude to one thousandth is not below it
    have least : unitsPerOne ≤ 1000 * unitsOfRank (nearestRank unitsPerOne 1000) := by
      decide +kernel
    exact Nat.le_trans least (Nat.mul_le_mul_left 1000 (unitsOfRank_strictMono.monotone le))
  · intro le
    have scaled : unitsPerOne * 1000 ≤ unitsOfRank m.rank * 1000 * 1000 := by
      rw [Nat.mul_comm 1000] at le
      exact Nat.mul_le_mul_right 1000 le
    have rounded := nearestRank_le_nearestRank (by decide) (by decide) scaled
    rwa [nearestRank_unitsOfRank (by decide)] at rounded

theorem lt_tenMillion_iff :
    m.rank < nearestRank (10000000 * unitsPerOne) 1 ↔ m.units < 10000000 * unitsPerOne := by
  obtain ⟨r, units⟩ := Double.exists_rank_natural (n := 10000000) (by decide)
  have rounded := nearestRank_unitsOfRank Nat.one_pos r
  rw [Nat.mul_one, units] at rounded
  rw [rounded, ← units]
  exact unitsOfRank_strictMono.lt_iff_lt.symm

theorem isPositional_iff :
    m.isPositional = true ↔ unitsPerOne ≤ 1000 * m.units ∧ m.units < 10000000 * unitsPerOne := by
  rw [isPositional, Bool.and_eq_true, decide_eq_true_iff, decide_eq_true_iff]
  exact and_congr thousandth_le_iff lt_tenMillion_iff

/-- The magnitude is zero, or at least one thousandth and less than ten million. -/
def InPlainRange (m : Magnitude) : Prop :=
  m.units = 0 ∨ unitsPerOne ≤ 1000 * m.units ∧ m.units < 10000000 * unitsPerOne

theorem isPlain_iff : m.isPlain = true ↔ m.InPlainRange := by
  have zero : m.isZero = true ↔ m.units = 0 := by
    rw [isZero, beq_iff_eq, units, ← unitsOfRank_strictMono.injective.eq_iff, unitsOfRank_zero]
  rw [isPlain, Bool.or_eq_true, zero, isPositional_iff, InPlainRange]

end Magnitude

/-! ## Digits -/

namespace Decimal

/-- The digits of a natural: the first of several is no zero. -/
structure IsWhole (s : List Char) : Prop where
  all_isDigit : s.all Char.isDigit = true
  ne_nil : s ≠ []
  first : s.head? = some '0' → s = ['0']

/-- The digits behind a dot: the last of several is no zero. -/
structure IsFraction (s : List Char) : Prop where
  all_isDigit : s.all Char.isDigit = true
  ne_nil : s ≠ []
  last : s.getLast? = some '0' → s = ['0']

/-- Digits on both sides of a dot. -/
def PlainShape (s : List Char) : Prop :=
  ∃ whole behind, s = whole ++ '.' :: behind ∧ IsWhole whole ∧ IsFraction behind

/-- A power of ten: seven or more, or minus four or less, with neither a plus nor a zero in
front. -/
def IsExponent (s : List Char) : Prop :=
  ∃ digits, IsWhole digits ∧
    (s = digits ∧ 7 ≤ Nat.ofDigitChars 10 digits 0 ∨
      s = '-' :: digits ∧ 4 ≤ Nat.ofDigitChars 10 digits 0)

/-- One digit other than zero, the digits behind the dot, and an exponent. -/
def ScientificShape (s : List Char) : Prop :=
  ∃ c behind exponent, s = c :: '.' :: behind ++ 'E' :: exponent ∧ c.isDigit = true ∧ c ≠ '0' ∧
    IsFraction behind ∧ IsExponent exponent

theorem isWhole_toDigits (n : Nat) : IsWhole (Nat.toDigits 10 n) where
  all_isDigit := all_isDigit_toDigits n
  ne_nil := Nat.toDigits_ne_nil
  first := by
    intro zero
    rcases Nat.eq_zero_or_pos n with rfl | pos
    · rfl
    · have noZero := stops_toDigits pos '0' zero
      contradiction

theorem isExponent_integer {z : Int} (far : z ≤ -4 ∨ 7 ≤ z) : IsExponent (integer z) := by
  refine ⟨Nat.toDigits 10 z.natAbs, isWhole_toDigits _, ?_⟩
  rw [Nat.ofDigitChars_ten_toDigits]
  unfold integer
  split
  · exact .inr ⟨rfl, by omega⟩
  · exact .inl ⟨rfl, by omega⟩

/-- Behind the dot stand digits that end with none that could be left out, or a single zero. -/
theorem exists_isFraction {digits : List Char} (all : digits.all Char.isDigit = true)
    (last : digits.getLast? ≠ some '0') :
    ∃ behind, fraction digits = '.' :: behind ∧ IsFraction behind := by
  cases digits with
  | nil => exact ⟨['0'], rfl, rfl, List.cons_ne_nil _ _, fun _ => rfl⟩
  | cons c s => exact ⟨c :: s, rfl, all, List.cons_ne_nil c s, fun zero => absurd zero last⟩

namespace Significant

variable {digits : List Char} (sig : Significant digits)
include sig

theorem getLast?_ne_zero : digits.getLast? ≠ some '0' := by
  intro zero
  have last := List.rdropWhile_eq_self_iff.1 sig.last sig.ne_nil
  rw [List.getLast?_eq_some_getLast sig.ne_nil, Option.some.injEq] at zero
  exact last (by rw [zero]; rfl)

theorem exists_cons : ∃ c s, digits = c :: s ∧ c.isDigit = true ∧ c ≠ '0' := by
  obtain ⟨c, s, rfl⟩ := List.exists_cons_of_ne_nil sig.ne_nil
  have head := stops_cons_iff.1 sig.head
  have all := sig.all_isDigit
  rw [List.all_cons, Bool.and_eq_true] at all
  exact ⟨c, s, rfl, all.1, beq_eq_false_iff_ne.1 head⟩

/-- The fraction that is left behind the first digits. -/
theorem exists_isFraction_drop (k : Nat) :
    ∃ behind, fraction (digits.drop k) = '.' :: behind ∧ IsFraction behind := by
  refine exists_isFraction ?_ ?_
  · exact List.all_eq_true.2 fun c member =>
      List.all_eq_true.1 sig.all_isDigit c (List.mem_of_mem_drop member)
  · rw [List.getLast?_drop]
    split
    · simp
    · exact sig.getLast?_ne_zero

/-- The first digits, with zeros up to the dot. -/
theorem isWhole_rightpad (k : Nat) : IsWhole ((digits.take (k + 1)).rightpad (k + 1) '0') := by
  have all : (digits.take (k + 1)).all Char.isDigit = true :=
    List.all_eq_true.2 fun c member =>
      List.all_eq_true.1 sig.all_isDigit c (List.mem_of_mem_take member)
  obtain ⟨c, s, rfl, -, nonzero⟩ := sig.exists_cons
  refine ⟨?_, ?_, ?_⟩
  · rw [List.rightpad, List.all_append, all, all_isDigit_replicate_zero]
    rfl
  · exact List.cons_ne_nil c _
  · intro zero
    exact absurd (Option.some.inj zero) nonzero

end Significant

variable {d : Decimal} (sig : Significant d.digits)
include sig

theorem plainShape_positional : PlainShape d.positional := by
  unfold positional
  split
  · obtain ⟨behind, fraction, isFraction⟩ := sig.exists_isFraction_drop (d.exponent.toNat + 1)
    dsimp only
    rw [fraction]
    exact ⟨_, behind, rfl, sig.isWhole_rightpad _, isFraction⟩
  · have all :
        (List.replicate (-d.exponent - 1).toNat '0' ++ d.digits).all Char.isDigit = true := by
      rw [List.all_append, all_isDigit_replicate_zero, sig.all_isDigit]
      rfl
    have last : (List.replicate (-d.exponent - 1).toNat '0' ++ d.digits).getLast? ≠ some '0' := by
      rw [List.getLast?_append_of_ne_nil _ sig.ne_nil]
      exact sig.getLast?_ne_zero
    obtain ⟨behind, fraction, isFraction⟩ := exists_isFraction all last
    rw [fraction]
    exact ⟨['0'], behind, rfl, isWhole_toDigits 0, isFraction⟩

theorem scientificShape_scientific (far : d.exponent ≤ -4 ∨ 7 ≤ d.exponent) :
    ScientificShape d.scientific := by
  obtain ⟨behind, fraction, isFraction⟩ := sig.exists_isFraction_drop 1
  obtain ⟨c, s, digits, digit, nonzero⟩ := sig.exists_cons
  rw [scientific, fraction, digits]
  exact ⟨c, behind, integer d.exponent, rfl, digit, nonzero, isFraction, isExponent_integer far⟩

end Decimal

/-! ## The exponent of the shortest decimal -/

namespace Magnitude

variable {m : Magnitude} {k : Nat}

theorem le_exponent_of_le (le : 10 ^ k ≤ steps m.rank) :
    (k : Int) - stepPlaces ≤ (Decimal.ofMagnitude m).exponent := by
  have lt := Nat.lt_of_le_of_lt le (Decimal.lt_pow_length_toDigits _)
  have places := (Nat.pow_lt_pow_iff_right (by decide)).1 lt
  simp only [Decimal.ofMagnitude, stepPlaces]
  omega

theorem exponent_lt_of_lt (lt : steps m.rank < 10 ^ k) (pos : 0 < k) :
    (Decimal.ofMagnitude m).exponent < (k : Int) - stepPlaces := by
  have places := (Nat.length_toDigits_le_iff (by decide) pos).2 lt
  simp only [Decimal.ofMagnitude, stepPlaces]
  omega

/-- If the decimal of a smaller magnitude reached one thousandth, it would be rounded to no less
than what one thousandth itself is rounded to. -/
theorem exponent_lt_of_lt_thousandth (lt : m.rank < nearestRank unitsPerOne 1000) :
    (Decimal.ofMagnitude m).exponent < -3 := by
  obtain ⟨k, places⟩ : ∃ k, stepPlaces = k + 1 + 3 := ⟨1070, rfl⟩
  have thousandth : nearestRank (10 ^ (k + 1)) stepsPerUnit = nearestRank unitsPerOne 1000 := by
    refine nearestRank_congr stepsPerUnit_pos (by decide) ?_
    rw [unitsPerOne_mul_stepsPerUnit, places, Nat.pow_add 10 (k + 1)]
  have reads := Shortest.readsBack_iff.1 (Shortest.chosen_steps m.rank).reads
  have few : steps m.rank < 10 ^ (k + 1) := by
    by_contra many
    have rounded := nearestRank_le_nearestRank stepsPerUnit_pos stepsPerUnit_pos
      (Nat.mul_le_mul_right stepsPerUnit (Nat.le_of_not_lt many))
    rw [thousandth, reads] at rounded
    omega
  have bound := exponent_lt_of_lt few (Nat.succ_pos k)
  omega

/-- The decimal of a magnitude is not less than the power of ten of its leading digit. -/
theorem le_exponent_of_tenMillion_le (nonzero : m.isZero = false)
    (le : 10000000 * unitsPerOne ≤ m.units) : 7 ≤ (Decimal.ofMagnitude m).exponent := by
  have exact : 10 ^ (stepPlaces + 7) ≤ Shortest.exactSteps m.rank := by
    calc 10 ^ (stepPlaces + 7) = 10000000 * unitsPerOne * stepsPerUnit := by
          rw [Nat.mul_assoc, unitsPerOne_mul_stepsPerUnit, Nat.pow_add, Nat.mul_comm]
      _ ≤ Shortest.exactSteps m.rank := Nat.mul_le_mul_right _ le
  have leading := Nat.lt_of_le_of_lt exact (Shortest.lt_pow_leading m.rank)
  rw [← Nat.pow_succ', Nat.pow_lt_pow_iff_right (by decide)] at leading
  have bound := le_exponent_of_le (Shortest.pow_leading_le_steps (rank_pos nonzero))
  omega

theorem exponent_ofMagnitude (nonzero : m.isZero = false) (kind : m.isPositional = false) :
    (Decimal.ofMagnitude m).exponent ≤ -4 ∨ 7 ≤ (Decimal.ofMagnitude m).exponent := by
  rw [isPositional, Bool.and_eq_false_iff, decide_eq_false_iff_not, decide_eq_false_iff_not,
    lt_tenMillion_iff, Nat.not_le, Nat.not_lt] at kind
  rcases kind with small | large
  · exact .inl (by have bound := exponent_lt_of_lt_thousandth small; omega)
  · exact .inr (le_exponent_of_tenMillion_le nonzero large)

/-- A magnitude in the plain range is written without an exponent, any other with one. -/
theorem shape_text (m : Magnitude) :
    (m.InPlainRange → Decimal.PlainShape m.text) ∧
      (¬ m.InPlainRange → Decimal.ScientificShape m.text) := by
  rw [← isPlain_iff, isPlain]
  cases zero : m.isZero with
  | true =>
    refine ⟨fun _ => ?_, fun other => absurd rfl other⟩
    exact ⟨['0'], ['0'], text_of_isZero zero, Decimal.isWhole_toDigits 0, rfl, List.cons_ne_nil _ _,
      fun _ => rfl⟩
  | false =>
    have sig := significant_ofMagnitude zero
    cases kind : m.isPositional with
    | true =>
      refine ⟨fun _ => ?_, fun other => absurd rfl other⟩
      rw [text_of_isPositional zero kind]
      exact Decimal.plainShape_positional sig
    | false =>
      refine ⟨fun plain => absurd plain Bool.false_ne_true, fun _ => ?_⟩
      rw [text_of_not_isPositional zero kind]
      exact Decimal.scientificShape_scientific sig (exponent_ofMagnitude zero kind)

end Magnitude

/-! ## Signs -/

/-- How a sign is written: a minus, or nothing. -/
def signMark (negative : Bool) : List Char := if negative then ['-'] else []

namespace Double

variable (negative : Bool) (m : Magnitude)

theorem text_finite : (finite negative m).text = signMark negative ++ m.text := by
  cases negative with
  | true => exact text_negative m
  | false => exact text_positive m

/-- A minus is written for the sign alone, since the text of a magnitude begins with a digit. -/
theorem head?_text_finite : (finite negative m).text.head? = some '-' ↔ negative = true := by
  obtain ⟨c, s, shape, digit⟩ := m.exists_text_eq_cons
  rw [text_finite, shape]
  cases negative with
  | true => exact ⟨fun _ => rfl, fun _ => rfl⟩
  | false =>
    refine ⟨fun first => ?_, fun other => absurd other Bool.false_ne_true⟩
    cases Option.some.inj first
    contradiction

/-- The sign bit is the highest bit of the pattern. -/
theorem signBit_le_toBits : signBit true ≤ (finite negative m).toBits.toNat ↔ negative = true := by
  have lt : m.rank < signBit true := Nat.lt_of_lt_of_le m.rank_lt (by decide)
  have fits : signBit negative + m.rank < 2 ^ 64 := by
    have double : signBit true + signBit true = 2 ^ 64 := rfl
    have le : signBit negative ≤ signBit true := by cases negative <;> decide
    omega
  rw [toBits, UInt64.toNat_ofNat_of_lt' fits]
  cases negative with
  | true => exact ⟨fun _ => rfl, fun _ => Nat.le_add_right _ _⟩
  | false =>
    refine ⟨fun le => ?_, fun other => absurd other Bool.false_ne_true⟩
    rw [show signBit false = 0 from rfl] at le
    omega

/-- A finite number is written in one of two shapes, behind a minus exactly if its sign bit is
set. -/
theorem text_shape :
    ∃ body, (finite negative m).text = signMark negative ++ body ∧
      (m.InPlainRange → Decimal.PlainShape body) ∧
      (¬ m.InPlainRange → Decimal.ScientificShape body) ∧
      ((finite negative m).text.head? = some '-' ↔
        signBit true ≤ (finite negative m).toBits.toNat) := by
  obtain ⟨plain, scientific⟩ := m.shape_text
  exact ⟨m.text, text_finite negative m, plain, scientific,
    (head?_text_finite negative m).trans (signBit_le_toBits negative m).symm⟩

end Double

end Reckoner
