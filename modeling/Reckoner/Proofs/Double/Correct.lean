import Mathlib.Algebra.Order.Field.Basic
import Mathlib.Algebra.Order.Field.Rat
import Mathlib.Data.Nat.Cast.Order.Field
import Mathlib.Tactic.FieldSimp
import Mathlib.Tactic.Positivity
import Reckoner.Proofs.Double.Naturals

/-!
# Correct rounding

`RoundsTo x v` says that `v` is the double for the rational number `x`, with no mention of how it is
found: a finite one if no other magnitude is nearer, where an even rank decides between two, and
infinity from `overflowThreshold` on. There is exactly one such double for every number that is not
negative (`RoundsTo.unique`), and the rounding of a fraction finds it (`roundsTo_ofFraction`).

The numbers at which the answer changes are midpoints between neighbouring magnitudes
(`lt_nearestRank_iff_midpoint`). The last of them is the threshold of overflow, the first the bound
up to which there is only zero.
-/

namespace Reckoner

open Double (unitPlaces unitsPerOne_eq unitsPerOne_pos two_mul_ranksPerBinade)

/-- The exact value of a magnitude. -/
def Magnitude.exact (m : Magnitude) : ℚ := m.units / unitsPerOne

/-- The number halfway between the magnitude of a rank and the next. -/
def midpoint (r : Nat) : ℚ := twiceMidpoint r / (2 * unitsPerOne)

/-- The magnitude is nearest to the number. If another one is equally near, its own rank is even,
and so is its significand. -/
def Magnitude.IsNearest (m : Magnitude) (x : ℚ) : Prop :=
  ∀ other : Magnitude, other ≠ m →
    |x - m.exact| < |x - other.exact| ∨ |x - m.exact| = |x - other.exact| ∧ m.rank % 2 = 0

/-- Half a step above the greatest magnitude. -/
def overflowThreshold : ℚ := (2 ^ 54 - 1) * 2 ^ 970

/-- Half a step below the least normal magnitude. -/
def subnormalThreshold : ℚ := (2 ^ 53 - 1) / 2 ^ 1075

/-- Half the least magnitude that is not zero. -/
def underflowThreshold : ℚ := 1 / 2 ^ 1075

/-- The double for a rational number that is not negative. -/
def RoundsTo (x : ℚ) : Double → Prop
  | .nan => False
  | .infinity negative => negative = false ∧ overflowThreshold ≤ x
  | .finite negative m => negative = false ∧ x < overflowThreshold ∧ m.IsNearest x

theorem unitsPerOne_cast_pos : (0 : ℚ) < unitsPerOne := Nat.cast_pos.2 unitsPerOne_pos

theorem Magnitude.exact_lt_exact {m m' : Magnitude} (lt : m.rank < m'.rank) :
    m.exact < m'.exact := by
  have units : (m.units : ℚ) < m'.units := Nat.cast_lt.2 (unitsOfRank_strictMono lt)
  exact div_lt_div_of_pos_right units unitsPerOne_cast_pos

/-! ## Only one double -/

/-- Between two magnitudes of even rank there is a third, which is nearer to the number halfway
between them. -/
theorem Magnitude.IsNearest.not_rank_lt {x : ℚ} {m m' : Magnitude} (h : m.IsNearest x)
    (h' : m'.IsNearest x) : ¬ m.rank < m'.rank := by
  intro lt
  have differ : m' ≠ m := by
    rintro rfl
    exact Nat.lt_irrefl _ lt
  have tie : |x - m.exact| = |x - m'.exact| ∧ m.rank % 2 = 0 ∧ m'.rank % 2 = 0 := by
    rcases h m' differ with nearer | ⟨same, even⟩
    · rcases h' m differ.symm with nearer' | ⟨same', -⟩ <;> linarith
    · rcases h' m differ.symm with nearer' | ⟨-, even'⟩
      · linarith
      · exact ⟨same, even, even'⟩
  obtain ⟨same, even, even'⟩ := tie
  obtain ⟨middle, rank⟩ : ∃ middle : Magnitude, middle.rank = m.rank + 1 :=
    ⟨⟨m.rank + 1, Nat.lt_of_le_of_lt lt m'.rank_lt⟩, rfl⟩
  have below : m.exact < middle.exact := Magnitude.exact_lt_exact (by omega)
  have above : middle.exact < m'.exact := Magnitude.exact_lt_exact (by omega)
  have half : 2 * x = m.exact + m'.exact := by
    rcases abs_eq_abs.1 same with equal | opposite <;> linarith
  have nearer : |x - middle.exact| < |x - m.exact| := by
    rw [abs_of_pos (show 0 < x - m.exact by linarith), abs_lt]
    constructor <;> linarith
  have other : middle ≠ m := by
    rintro rfl
    omega
  rcases h middle other with nearer' | ⟨same', -⟩ <;> linarith

theorem Magnitude.IsNearest.unique {x : ℚ} {m m' : Magnitude} (h : m.IsNearest x)
    (h' : m'.IsNearest x) : m = m' := by
  have rank : m.rank = m'.rank :=
    Nat.le_antisymm (Nat.le_of_not_lt (h'.not_rank_lt h)) (Nat.le_of_not_lt (h.not_rank_lt h'))
  cases m
  cases m'
  cases rank
  rfl

theorem RoundsTo.unique {x : ℚ} {v w : Double} (h : RoundsTo x v) (h' : RoundsTo x w) : v = w := by
  cases v with
  | nan => exact h.elim
  | infinity negative =>
    cases w with
    | nan => exact h'.elim
    | infinity negative' => rw [h.1, h'.1]
    | finite negative' m => exact absurd h.2 (not_le_of_gt h'.2.1)
  | finite negative m =>
    cases w with
    | nan => exact h'.elim
    | infinity negative' => exact absurd h'.2 (not_le_of_gt h.2.1)
    | finite negative' m' => rw [h.1, h'.1, h.2.2.unique h'.2.2]

theorem RoundsTo.eq_infinity_iff {x : ℚ} {v : Double} (h : RoundsTo x v) :
    v = .infinity false ↔ overflowThreshold ≤ x := by
  constructor
  · rintro rfl
    exact h.2
  · intro le
    exact h.unique ⟨rfl, le⟩

/-! ## Midpoints -/

section Fractions

variable {num den : Nat}

/-- Lying beyond half of a sum of units, said of the numbers themselves. -/
theorem beyond_iff {k sum unit : Nat} (pos : 0 < den) (posUnit : 0 < unit) :
    Beyond k sum (num * unit) den ↔
      (sum : ℚ) / (2 * unit) < num / den ∨ (sum : ℚ) / (2 * unit) = num / den ∧ k % 2 = 1 := by
  have twice : (0 : ℚ) < 2 * unit := mul_pos two_pos (Nat.cast_pos.2 posUnit)
  have posCast : (0 : ℚ) < den := Nat.cast_pos.2 pos
  rw [Beyond, div_lt_div_iff₀ twice posCast, div_eq_div_iff twice.ne' posCast.ne',
    Nat.mul_left_comm 2 num]
  norm_cast

/-- A fraction is rounded to something above a rank if it lies beyond the midpoint behind that rank,
or on the midpoint if the rank is odd. -/
theorem lt_nearestRank_iff_midpoint (pos : 0 < den) (r : Nat) :
    r < nearestRank (num * unitsPerOne) den ↔
      midpoint r < (num : ℚ) / den ∨ midpoint r = num / den ∧ r % 2 = 1 :=
  (lt_nearestRank_iff pos r).trans (beyond_iff pos unitsPerOne_pos)

/-- An even rank is reached from the midpoint in front of it on. -/
theorem le_nearestRank_iff (pos : 0 < den) {r : Nat} (some : 0 < r) (even : r % 2 = 0) :
    r ≤ nearestRank (num * unitsPerOne) den ↔ midpoint (r - 1) ≤ (num : ℚ) / den := by
  have odd : (r - 1) % 2 = 1 := by omega
  have beyond := @lt_nearestRank_iff_midpoint num den pos (r - 1)
  simp only [odd, and_true, ← le_iff_lt_or_eq] at beyond
  rw [← beyond]
  omega

/-- A midpoint has one more bit than the magnitudes of its binade. -/
theorem midpoint_of_valid {b k n : Nat} (valid : Valid b k) (lt : k < 2 * ranksPerBinade)
    (odd : 2 * k + 1 = n) :
    midpoint (b * ranksPerBinade + k) = n * 2 ^ b / 2 ^ (unitPlaces + 1) := by
  rw [midpoint, twiceMidpoint_of_valid valid lt, odd, unitsPerOne_eq, Nat.cast_mul, Nat.cast_pow,
    Nat.cast_pow, pow_succ']
  rfl

/-- The midpoint behind the greatest magnitude. -/
theorem midpoint_greatest : midpoint (overflowRank - 1) = overflowThreshold := by
  have rank : overflowRank - 1 = 2045 * ranksPerBinade + (2 * ranksPerBinade - 1) := by
    decide +kernel
  have normal : Valid 2045 (2 * ranksPerBinade - 1) := ⟨.inr (by decide +kernel), Nat.sub_le _ _⟩
  have significand : 2 * (2 * ranksPerBinade - 1) + 1 = 18014398509481983 := by decide +kernel
  have cancel {a b c : Nat} (sum : a = b + c) : (2 : ℚ) ^ a / 2 ^ c = 2 ^ b := by
    rw [sum, pow_add, mul_div_cancel_right₀ _ (by positivity)]
  rw [rank, midpoint_of_valid normal (by decide +kernel) significand, mul_div_assoc,
    cancel (show 2045 = 970 + (unitPlaces + 1) from rfl), overflowThreshold]
  norm_num

/-- The midpoint behind the greatest subnormal magnitude. -/
theorem midpoint_subnormal : midpoint (ranksPerBinade - 1) = subnormalThreshold := by
  have rank : ranksPerBinade - 1 = 0 * ranksPerBinade + (ranksPerBinade - 1) := by decide +kernel
  have subnormal : Valid 0 (ranksPerBinade - 1) := ⟨.inl rfl, by decide +kernel⟩
  have significand : 2 * (ranksPerBinade - 1) + 1 = 9007199254740991 := by decide +kernel
  have bits : ((9007199254740991 : Nat) : ℚ) = 2 ^ 53 - 1 := by norm_num
  rw [rank, midpoint_of_valid subnormal (by decide +kernel) significand, bits, pow_zero, mul_one]
  rfl

/-- The midpoint behind zero. -/
theorem midpoint_zero : midpoint 0 = underflowThreshold := by
  have first : Valid 0 0 := ⟨.inl rfl, Nat.zero_le _⟩
  have behind := midpoint_of_valid first (by decide +kernel) rfl
  rw [Nat.zero_mul] at behind
  rw [behind, pow_zero, mul_one, Nat.cast_one]
  rfl

/-! ## The rounding of fractions -/

/-- Distances are counted in units, over the denominator. -/
theorem abs_sub_div {units unit : Nat} (pos : 0 < den) (posUnit : 0 < unit) :
    |(num : ℚ) / den - units / unit| = Nat.dist (num * unit) (units * den) / (den * unit) := by
  have posCast : (0 : ℚ) < den := Nat.cast_pos.2 pos
  have posUnitCast : (0 : ℚ) < unit := Nat.cast_pos.2 posUnit
  have counted : |(num * unit - den * units : ℚ)| = Nat.dist (num * unit) (units * den) := by
    rw [mul_comm (den : ℚ)]
    rcases Nat.le_total (num * unit) (units * den) with le | le
    · rw [Nat.dist_eq_sub_of_le le, Nat.cast_sub le, abs_sub_comm, abs_of_nonneg]
      · push_cast
        rfl
      · rw [sub_nonneg]
        exact_mod_cast le
    · rw [Nat.dist_eq_sub_of_le_right le, Nat.cast_sub le, abs_of_nonneg]
      · push_cast
        rfl
      · rw [sub_nonneg]
        exact_mod_cast le
  rw [div_sub_div _ _ posCast.ne' posUnitCast.ne', abs_div, counted,
    abs_of_pos (mul_pos posCast posUnitCast)]

theorem isNearest_of_rank {m : Magnitude} (pos : 0 < den)
    (rank : nearestRank (num * unitsPerOne) den = m.rank) : m.IsNearest (num / den : ℚ) := by
  intro other differ
  have otherRank : other.rank ≠ nearestRank (num * unitsPerOne) den := by
    intro same
    refine differ ?_
    cases m
    cases other
    cases same.trans rank
    rfl
  have scale : (0 : ℚ) < den * unitsPerOne := mul_pos (Nat.cast_pos.2 pos) unitsPerOne_cast_pos
  have nearest := nearestRank_nearest pos otherRank
  rw [rank] at nearest
  simp only [Magnitude.exact, Magnitude.units, abs_sub_div pos unitsPerOne_pos]
  rcases nearest with nearer | ⟨same, even⟩
  · exact .inl (div_lt_div_of_pos_right (Nat.cast_lt.2 nearer) scale)
  · exact .inr ⟨by rw [same], even⟩

theorem overflowRank_le_iff (pos : 0 < den) :
    overflowRank ≤ nearestRank (num * unitsPerOne) den ↔ overflowThreshold ≤ (num : ℚ) / den := by
  rw [← midpoint_greatest]
  exact le_nearestRank_iff pos (by decide +kernel) (by decide +kernel)

theorem ranksPerBinade_le_iff (pos : 0 < den) :
    ranksPerBinade ≤ nearestRank (num * unitsPerOne) den ↔
      subnormalThreshold ≤ (num : ℚ) / den := by
  rw [← midpoint_subnormal]
  exact le_nearestRank_iff pos (by decide +kernel) (by decide +kernel)

/-- The rounding of a fraction is correct. -/
theorem roundsTo_ofFraction (pos : 0 < den) : RoundsTo (num / den : ℚ) (.ofFraction num den) := by
  unfold Double.ofFraction Double.ofUnits
  dsimp only
  split
  · rename_i below
    refine ⟨rfl, ?_, isNearest_of_rank pos rfl⟩
    exact lt_of_not_ge (mt (overflowRank_le_iff pos).2 (Nat.not_le.2 below))
  · rename_i overflow
    exact ⟨rfl, (overflowRank_le_iff pos).1 (Nat.le_of_not_lt overflow)⟩

theorem ofFraction_subnormal_iff (pos : 0 < den) :
    (∃ m, Double.ofFraction num den = .finite false m ∧ m.rank < ranksPerBinade) ↔
      (num : ℚ) / den < subnormalThreshold := by
  have below : nearestRank (num * unitsPerOne) den < ranksPerBinade ↔
      (num : ℚ) / den < subnormalThreshold := by
    rw [← Nat.not_le, ranksPerBinade_le_iff pos, not_le]
  rw [← below]
  constructor
  · rintro ⟨m, found, lt⟩
    rwa [(Double.ofUnits_eq_finite_iff.1 found).2]
  · intro lt
    have finite : nearestRank (num * unitsPerOne) den < overflowRank :=
      Nat.lt_trans lt (by decide +kernel)
    exact ⟨⟨_, finite⟩, Double.ofUnits_eq_finite_iff.2 ⟨rfl, rfl⟩, lt⟩

theorem ofFraction_zero_iff (pos : 0 < den) :
    Double.ofFraction num den = .zero false ↔ (num : ℚ) / den ≤ underflowThreshold := by
  have positive := @lt_nearestRank_iff_midpoint num den pos 0
  simp only [Nat.zero_mod, Nat.zero_ne_one, and_false, or_false, midpoint_zero] at positive
  rw [← not_lt, ← positive, Nat.not_lt, Nat.le_zero, Double.zero]
  exact Double.ofUnits_eq_finite_iff.trans (and_iff_right rfl)

end Fractions

end Reckoner
