import Mathlib.Data.List.DropRight
import Reckoner.Decimal.Notation
import Reckoner.Proofs.Decimal.Shortest
import Reckoner.Proofs.Text.Tokens

/-!
# Significant digits

The digits of a number without the zeros at their end. A number that is a multiple of `10 ^ i` and
has `i + j` digits has at most `j` of them (`length_significant_le`), so a decimal has as few
significant digits as its grid is coarse. That the digits of a magnitude are as few as possible
follows by comparing the leading place of any decimal that reads back with the leading place of the
exact value (`length_digits_le`).
-/

namespace Reckoner

namespace Decimal

/-! ## Zeros at the end -/

theorem exists_append_zeros (digits : List Char) :
    ∃ k, digits = dropTrailingZeros digits ++ List.replicate k '0' := by
  have split : digits.rdropWhile (· == '0') ++ digits.rtakeWhile (· == '0') = digits :=
    List.rdropWhile_append_rtakeWhile
  have zeros : digits.rtakeWhile (· == '0') =
      List.replicate (digits.rtakeWhile (· == '0')).length '0' := by
    refine List.eq_replicate_of_mem fun c member => ?_
    simpa using List.mem_rtakeWhile_imp member
  refine ⟨(digits.rtakeWhile (· == '0')).length, ?_⟩
  rw [← zeros]
  exact split.symm

theorem dropTrailingZeros_append_zeros (digits : List Char) (k : Nat) :
    dropTrailingZeros (digits ++ List.replicate k '0') = dropTrailingZeros digits := by
  simp [dropTrailingZeros]

theorem length_dropTrailingZeros_le (digits : List Char) :
    (dropTrailingZeros digits).length ≤ digits.length :=
  (List.rdropWhile_prefix _ _).length_le

/-! ## The digits of a natural -/

theorem toDigits_mul_ten {n : Nat} (pos : 0 < n) :
    Nat.toDigits 10 (n * 10) = Nat.toDigits 10 n ++ ['0'] := by
  rw [← Nat.toDigits_zero 10, Nat.toDigits_append_toDigits (by decide) pos (by decide),
    Nat.add_zero, Nat.mul_comm]

theorem toDigits_mul_pow {n : Nat} (pos : 0 < n) (i : Nat) :
    Nat.toDigits 10 (n * 10 ^ i) = Nat.toDigits 10 n ++ List.replicate i '0' := by
  induction i with
  | zero => simp
  | succ i ih =>
    rw [Nat.pow_succ, ← Nat.mul_assoc, toDigits_mul_ten (Nat.mul_pos pos (Nat.pow_pos (by decide))),
      ih, List.replicate_succ', List.append_assoc]

/-- A positive number begins with another digit than zero. -/
theorem stops_toDigits {n : Nat} (pos : 0 < n) : Stops (· == '0') (Nat.toDigits 10 n) := by
  induction n using Nat.strongRecOn with
  | ind n ih =>
    rcases Nat.lt_or_ge n 10 with small | large
    · rw [Nat.toDigits_of_lt_base small, stops_cons_iff, beq_eq_false_iff_ne]
      exact fun zero => pos.ne' (Nat.digitChar_eq_zero.1 zero)
    · have front := ih (n / 10) (by omega) (by omega)
      rw [Nat.toDigits_of_base_le (by decide) large]
      cases digits : Nat.toDigits 10 (n / 10) with
      | nil => exact absurd digits Nat.toDigits_ne_nil
      | cons c s =>
        rw [digits, stops_cons_iff] at front
        exact stops_cons_iff.2 front

theorem all_isDigit_toDigits (n : Nat) : (Nat.toDigits 10 n).all Char.isDigit = true :=
  List.all_eq_true.2 fun _ member => Nat.isDigit_of_mem_toDigits (by decide) (by decide) member

theorem lt_pow_length_toDigits (n : Nat) : n < 10 ^ (Nat.toDigits 10 n).length :=
  (Nat.length_toDigits_le_iff (by decide) Nat.length_toDigits_pos).1 (Nat.le_refl _)

theorem pow_length_toDigits_le {n : Nat} (pos : 0 < n) :
    10 ^ ((Nat.toDigits 10 n).length - 1) ≤ n := by
  rcases Nat.eq_zero_or_pos ((Nat.toDigits 10 n).length - 1) with one | more
  · rw [one]
    exact pos
  · refine Nat.le_of_not_lt fun less => ?_
    have short := (Nat.length_toDigits_le_iff (by decide) more).2 less
    omega

/-! ## Significant digits -/

/-- Digits that are all needed: there are some, and neither the first nor the last of them is a
zero. -/
structure Significant (digits : List Char) : Prop where
  all_isDigit : digits.all Char.isDigit = true
  ne_nil : digits ≠ []
  head : Stops (· == '0') digits
  last : dropTrailingZeros digits = digits

theorem significant_dropTrailingZeros_toDigits {n : Nat} (pos : 0 < n) :
    Significant (dropTrailingZeros (Nat.toDigits 10 n)) := by
  have head := stops_toDigits pos
  have all := all_isDigit_toDigits n
  obtain ⟨k, split⟩ := exists_append_zeros (Nat.toDigits 10 n)
  have idempotent : dropTrailingZeros (dropTrailingZeros (Nat.toDigits 10 n)) =
      dropTrailingZeros (Nat.toDigits 10 n) := List.rdropWhile_idempotent _ _
  generalize dropTrailingZeros (Nat.toDigits 10 n) = digits at split idempotent ⊢
  rw [split] at head all
  rw [List.all_append, Bool.and_eq_true] at all
  cases digits with
  | nil =>
    cases k with
    | zero => exact absurd split Nat.toDigits_ne_nil
    | succ k => exact absurd (stops_cons_iff.1 head) (by decide)
  | cons c s =>
    refine ⟨all.1, ?_, ?_, idempotent⟩
    · exact List.cons_ne_nil c s
    · rw [List.cons_append, stops_cons_iff] at head
      exact stops_cons_iff.2 head

/-- A multiple of `10 ^ i` with `i + j` digits has at most `j` significant ones. -/
theorem length_significant_le {n i j : Nat} (pos : 0 < n) (multiple : 10 ^ i ∣ n)
    (le : n ≤ 10 ^ (i + j)) (some : 0 < j) :
    (dropTrailingZeros (Nat.toDigits 10 n)).length ≤ j := by
  have length {c k : Nat} (pos : 0 < c) :
      (dropTrailingZeros (Nat.toDigits 10 (c * 10 ^ k))).length ≤ (Nat.toDigits 10 c).length := by
    rw [toDigits_mul_pow pos, dropTrailingZeros_append_zeros]
    exact length_dropTrailingZeros_le _
  rcases Nat.lt_or_eq_of_le le with lt | rfl
  · obtain ⟨c, rfl⟩ := multiple
    rw [Nat.mul_comm] at pos ⊢
    rw [Nat.pow_add] at lt
    have less : c < 10 ^ j := Nat.lt_of_mul_lt_mul_left lt
    exact Nat.le_trans (length (Nat.pos_of_mul_pos_right pos))
      ((Nat.length_toDigits_le_iff (by decide) some).2 less)
  · rw [← Nat.one_mul (10 ^ (i + j))]
    exact Nat.le_trans (length Nat.one_pos) some

end Decimal

namespace Shortest

open Decimal

/-- A step is this far behind the decimal point. -/
def stepPlaces : Nat := 1074

theorem unitsPerOne_mul_stepsPerUnit : unitsPerOne * stepsPerUnit = 10 ^ stepPlaces := by
  decide +kernel

/-- The place of the leading digit of the exact value, in steps. -/
def leading (rank : Nat) : Nat := (Nat.toDigits 10 (exactSteps rank)).length - 1

theorem chosen_steps (rank : Nat) : Chosen rank (leading rank) (steps rank) := chosen_search rank _

theorem lt_pow_leading (rank : Nat) : exactSteps rank < 10 * 10 ^ leading rank := by
  have length : (Nat.toDigits 10 (exactSteps rank)).length = leading rank + 1 :=
    (Nat.sub_add_cancel Nat.length_toDigits_pos).symm
  have lt := lt_pow_length_toDigits (exactSteps rank)
  rwa [length, Nat.pow_succ'] at lt

section Positive

variable {rank : Nat} (pos : 0 < rank)
include pos

theorem exactSteps_pos : 0 < exactSteps rank := by
  have units := unitsOfRank_strictMono pos
  rw [unitsOfRank_zero] at units
  exact Nat.mul_pos units stepsPerUnit_pos

theorem pow_leading_le : 10 ^ leading rank ≤ exactSteps rank :=
  pow_length_toDigits_le (exactSteps_pos pos)

theorem pow_leading_le_steps : 10 ^ leading rank ≤ steps rank := by
  have least := (chosen_steps rank).least 1
  rw [Nat.one_mul] at least
  exact least (pow_leading_le pos)

theorem steps_pos : 0 < steps rank :=
  Nat.lt_of_lt_of_le (Nat.pow_pos (by decide)) (pow_leading_le_steps pos)

/-- Where some decimal of a grid reads back, the digits chosen are as few as the grid leaves. -/
theorem length_digits_le_of_onGrid {n i j : Nat} (reads : readsBack rank (n * 10 ^ i) = true)
    (places : i + j = leading rank + 1) (some : 0 < j) :
    (dropTrailingZeros (Nat.toDigits 10 (steps rank))).length ≤ j := by
  have chosen := chosen_steps rank
  refine length_significant_le (steps_pos pos) (chosen.coarsest i (by omega) n reads) ?_ some
  rw [places, Nat.pow_succ']
  exact chosen.most 10 (lt_pow_leading rank)

end Positive

section Rounded

variable {rank c a b : Nat} (rounded : nearestRank (c * 10 ^ a * unitsPerOne) (10 ^ b) = rank)
include rounded

/-- Whatever lies between the exact value and a decimal that is rounded to the magnitude reads
back. -/
theorem readsBack_of_between_decimal {n : Nat}
    (between : exactSteps rank ≤ n ∧ n * 10 ^ b ≤ c * 10 ^ (a + stepPlaces) ∨
      n ≤ exactSteps rank ∧ c * 10 ^ (a + stepPlaces) ≤ n * 10 ^ b) :
    readsBack rank n = true := by
  have value : c * 10 ^ a * unitsPerOne * stepsPerUnit = c * 10 ^ (a + stepPlaces) := by
    rw [Nat.mul_assoc, unitsPerOne_mul_stepsPerUnit, Nat.mul_assoc, Nat.pow_add]
  rw [← value] at between
  exact readsBack_of_between (Nat.pow_pos (by decide)) rounded between

variable (pos : 0 < rank)
include pos

theorem coefficient_pos : 0 < c := by
  refine Nat.pos_of_ne_zero ?_
  rintro rfl
  have zero := nearestRank_unitsOfRank (Nat.pow_pos (by decide) : 0 < 10 ^ b) 0
  rw [unitsOfRank_zero, Nat.zero_mul] at zero
  rw [Nat.zero_mul, Nat.zero_mul, zero] at rounded
  exact pos.ne rounded

/-- No decimal that reads back has fewer digits. One with the leading place of the exact value is
itself on the grid of its last digit. One that lies higher or lower has a power of ten between
itself and the exact value, and then a single digit is enough. -/
theorem length_digits_le :
    (dropTrailingZeros (Nat.toDigits 10 (steps rank))).length ≤ (Nat.toDigits 10 c).length := by
  have some : 0 < (Nat.toDigits 10 c).length := Nat.length_toDigits_pos
  have high := lt_pow_length_toDigits c
  have low := pow_length_toDigits_le (coefficient_pos rounded pos)
  generalize (Nat.toDigits 10 c).length = d at *
  rcases Nat.lt_trichotomy (d + a + stepPlaces) (leading rank + 1 + b) with below | level | above
  · have lower : c * 10 ^ (a + stepPlaces) ≤ 1 * 10 ^ leading rank * 10 ^ b := by
      calc c * 10 ^ (a + stepPlaces)
        _ ≤ 10 ^ d * 10 ^ (a + stepPlaces) := Nat.mul_le_mul_right _ high.le
        _ = 10 ^ (d + a + stepPlaces) := by rw [← Nat.pow_add, Nat.add_assoc]
        _ ≤ 10 ^ (leading rank + b) := Nat.pow_le_pow_right (by decide) (by omega)
        _ = 1 * 10 ^ leading rank * 10 ^ b := by rw [Nat.pow_add, Nat.one_mul]
    have exact : 1 * 10 ^ leading rank ≤ exactSteps rank := by
      rw [Nat.one_mul]
      exact pow_leading_le pos
    have reads := readsBack_of_between_decimal rounded (.inr ⟨exact, lower⟩)
    exact Nat.le_trans (length_digits_le_of_onGrid pos reads rfl Nat.one_pos) some
  · rcases Nat.lt_or_ge (leading rank) d with many | few
    · -- there cannot be more digits than places
      have reads : readsBack rank (exactSteps rank * 10 ^ 0) = true := by
        rw [Nat.pow_zero, Nat.mul_one]
        exact readsBack_exactSteps rank
      have short := length_digits_le_of_onGrid pos reads (Nat.zero_add _) (Nat.succ_pos _)
      exact Nat.le_trans short many
    · have exponent : leading rank + 1 - d + b = a + stepPlaces := by omega
      have same : c * 10 ^ (leading rank + 1 - d) * 10 ^ b = c * 10 ^ (a + stepPlaces) := by
        rw [Nat.mul_assoc, ← Nat.pow_add, exponent]
      have side := Nat.le_total (exactSteps rank) (c * 10 ^ (leading rank + 1 - d))
      have reads := readsBack_of_between_decimal rounded
        (side.imp (fun le => ⟨le, same.le⟩) fun le => ⟨le, same.ge⟩)
      exact length_digits_le_of_onGrid pos reads (by omega) some
  · have upper : 10 * 10 ^ leading rank * 10 ^ b ≤ c * 10 ^ (a + stepPlaces) := by
      calc 10 * 10 ^ leading rank * 10 ^ b = 10 ^ (leading rank + 1 + b) := by
            rw [Nat.pow_add, Nat.pow_succ']
        _ ≤ 10 ^ (d - 1 + (a + stepPlaces)) := Nat.pow_le_pow_right (by decide) (by omega)
        _ = 10 ^ (d - 1) * 10 ^ (a + stepPlaces) := Nat.pow_add ..
        _ ≤ c * 10 ^ (a + stepPlaces) := Nat.mul_le_mul_right _ low
    have reads := readsBack_of_between_decimal rounded (.inl ⟨(lt_pow_leading rank).le, upper⟩)
    exact Nat.le_trans (length_digits_le_of_onGrid pos reads rfl Nat.one_pos) some

end Rounded

end Shortest

end Reckoner
