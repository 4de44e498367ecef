import Mathlib.Data.Nat.Dist
import Mathlib.Tactic.Linarith
import Reckoner.Proofs.Double.Ranks

/-!
# The nearest rank

All about rounding follows from one equivalence, `lt_nearestRank_iff`: an exact quotient is rounded
to something above a rank exactly if it lies beyond the midpoint between that rank and the next, or
on the midpoint if the rank is odd. So the magnitude chosen is the nearest one
(`nearestRank_nearest`), and rounding is monotone, depends only on the value of the quotient, and
leaves a magnitude as it is.
-/

namespace Reckoner

/-- The quotient `num / den` lies beyond half of `sum`, or just there if `k` is odd. -/
def Beyond (k sum num den : Nat) : Prop :=
  sum * den < 2 * num ∨ sum * den = 2 * num ∧ k % 2 = 1

/-- Twice the midpoint between a magnitude and the next. -/
def twiceMidpoint (r : Nat) : Nat := unitsOfRank r + unitsOfRank (r + 1)

theorem roundHalfEven_cases (num den : Nat) :
    2 * (num % den) < den ∧ roundHalfEven num den = num / den ∨
    2 * (num % den) = den ∧ roundHalfEven num den = num / den + num / den % 2 ∨
    den < 2 * (num % den) ∧ roundHalfEven num den = num / den + 1 := by
  unfold roundHalfEven
  dsimp only
  split
  · exact .inl ⟨Nat.compare_eq_lt.1 ‹_›, rfl⟩
  · exact .inr (.inl ⟨Nat.compare_eq_eq.1 ‹_›, rfl⟩)
  · exact .inr (.inr ⟨Nat.compare_eq_gt.1 ‹_›, rfl⟩)

/-- The natural nearest to a quotient lies above `k` if the quotient is beyond `k + 1 / 2`. -/
theorem lt_roundHalfEven_iff {num den : Nat} (pos : 0 < den) (k : Nat) :
    k < roundHalfEven num den ↔ Beyond k (2 * k + 1) num den := by
  have whole := Nat.div_add_mod num den
  have lt := Nat.mod_lt num pos
  have rounded := roundHalfEven_cases num den
  have sum : (2 * k + 1) * den = 2 * (k * den) + den := by ring
  rw [Nat.mul_comm den] at whole
  unfold Beyond
  rcases Nat.lt_trichotomy k (num / den) with below | same | above
  · have steps : (k + 1) * den ≤ num / den * den := Nat.mul_le_mul_right den below
    rw [Nat.succ_mul] at steps
    omega
  · rw [← same] at whole rounded
    omega
  · have steps : (num / den + 1) * den ≤ k * den := Nat.mul_le_mul_right den above
    rw [Nat.succ_mul] at steps
    omega

/-- The shift brings the quotient into the range of the significands of a binade. -/
theorem shift_spec {num den : Nat} (pos : 0 < den) :
    num < 2 * ranksPerBinade * 2 ^ ((num / den).log2 - 52) * den ∧
      ((num / den).log2 - 52 = 0 ∨
        ranksPerBinade * 2 ^ ((num / den).log2 - 52) * den ≤ num) := by
  have binade : ranksPerBinade = 2 ^ 52 := rfl
  rw [binade]
  constructor
  · have small : num / den < 2 * 2 ^ 52 * 2 ^ ((num / den).log2 - 52) := by
      calc num / den < 2 ^ ((num / den).log2 + 1) := Nat.lt_log2_self
        _ ≤ 2 ^ (1 + 52 + ((num / den).log2 - 52)) := Nat.pow_le_pow_right (by decide) (by omega)
        _ = 2 * 2 ^ 52 * 2 ^ ((num / den).log2 - 52) := by rw [Nat.pow_add, Nat.pow_add]
    exact (Nat.div_lt_iff_lt_mul pos).1 small
  · by_cases first : (num / den).log2 - 52 = 0
    · exact .inl first
    · right
      have nonzero : num / den ≠ 0 := by
        intro zero
        simp [zero] at first
      have large : 2 ^ 52 * 2 ^ ((num / den).log2 - 52) ≤ num / den := by
        calc 2 ^ 52 * 2 ^ ((num / den).log2 - 52) = 2 ^ (num / den).log2 := by
              rw [← Nat.pow_add]
              congr 1
              omega
          _ ≤ num / den := Nat.log2_self_le nonzero
      exact (Nat.le_div_iff_mul_le pos).1 large

/-- What is rounded is a significand again. -/
theorem valid_roundHalfEven {b num den : Nat} (pos : 0 < den)
    (high : num < 2 * ranksPerBinade * den) (low : b = 0 ∨ ranksPerBinade * den ≤ num) :
    Valid b (roundHalfEven num den) where
  normal := by
    refine low.imp id fun low => Nat.le_of_not_lt fun less => ?_
    have more : (2 * roundHalfEven num den + 1) * den < 2 * ranksPerBinade * den :=
      Nat.mul_lt_mul_of_pos_right (by omega) pos
    rw [Nat.mul_assoc 2 ranksPerBinade] at more
    exact Nat.lt_irrefl _ ((@lt_roundHalfEven_iff num den pos _).2 (.inl (by omega)))
  le := by
    refine Nat.le_of_not_lt fun more => ?_
    have less : 2 * (2 * ranksPerBinade) * den < (2 * (2 * ranksPerBinade) + 1) * den :=
      Nat.mul_lt_mul_of_pos_right (by omega) pos
    rw [Nat.mul_assoc 2 (2 * ranksPerBinade)] at less
    rcases (lt_roundHalfEven_iff pos _).1 more with beyond | ⟨tie, -⟩ <;> omega

theorem twiceMidpoint_of_valid {b k : Nat} (valid : Valid b k) (lt : k < 2 * ranksPerBinade) :
    twiceMidpoint (b * ranksPerBinade + k) = (2 * k + 1) * 2 ^ b := by
  have next : Valid b (k + 1) := ⟨valid.normal.imp id (by omega), lt⟩
  rw [twiceMidpoint, Nat.add_assoc, unitsOfRank_of_valid valid, unitsOfRank_of_valid next]
  ring

/-- A rank is odd if its significand is. -/
theorem rank_mod_two (b k : Nat) : (b * ranksPerBinade + k) % 2 = k % 2 := by
  have even : ranksPerBinade = 2 * 2 ^ 51 := by decide +kernel
  have shape : b * ranksPerBinade + k = k + 2 * (b * 2 ^ 51) := by rw [even]; ring
  rw [shape, Nat.add_mul_mod_self_left]

/-- The nearest rank lies above `r` if the quotient is beyond the midpoint behind `r`. Within the
binade of the quotient that is the rounding of its significand; below that binade every midpoint is
passed, and above it none. -/
theorem lt_nearestRank_iff {num den : Nat} (pos : 0 < den) (r : Nat) :
    r < nearestRank num den ↔ Beyond r (twiceMidpoint r) num den := by
  obtain ⟨high, low⟩ := @shift_spec num den pos
  have shape : nearestRank num den = ((num / den).log2 - 52) * ranksPerBinade +
      roundHalfEven num (den * 2 ^ ((num / den).log2 - 52)) := rfl
  rw [shape]
  generalize (num / den).log2 - 52 = b at *
  have scaled (n : Nat) : n * 2 ^ b * den = n * (den * 2 ^ b) := by ring
  rw [scaled] at high
  rw [scaled] at low
  have posScaled : 0 < den * 2 ^ b := Nat.mul_pos pos (Nat.two_pow_pos b)
  have rounds := @lt_roundHalfEven_iff num _ posScaled
  have significand := valid_roundHalfEven posScaled high low
  generalize roundHalfEven num (den * 2 ^ b) = w at *
  obtain ⟨normal, le⟩ := significand
  by_cases below : b ≠ 0 ∧ r < b * ranksPerBinade + ranksPerBinade
  · have first : Valid b ranksPerBinade := ⟨.inr le_rfl, by omega⟩
    have units := unitsOfRank_of_valid first
    have lower := unitsOfRank_strictMono below.2
    have upper : unitsOfRank (r + 1) ≤ _ := unitsOfRank_strictMono.monotone below.2
    refine iff_of_true (by omega) (.inl ?_)
    calc twiceMidpoint r * den < 2 * (ranksPerBinade * 2 ^ b) * den :=
          Nat.mul_lt_mul_of_pos_right (by rw [twiceMidpoint]; omega) pos
      _ = 2 * (ranksPerBinade * (den * 2 ^ b)) := by ring
      _ ≤ 2 * num := Nat.mul_le_mul_left 2 (low.resolve_left below.1)
  · by_cases inside : r < b * ranksPerBinade + 2 * ranksPerBinade
    · obtain ⟨k, rfl⟩ : ∃ k, r = b * ranksPerBinade + k := by
        refine Nat.exists_eq_add_of_le (Nat.le_of_not_lt fun less => below ⟨?_, by omega⟩)
        rintro rfl
        omega
      have valid : Valid b k := ⟨by omega, by omega⟩
      rw [Nat.add_lt_add_iff_left, rounds, twiceMidpoint_of_valid valid (by omega), Beyond, Beyond,
        scaled, rank_mod_two]
    · have last : Valid b (2 * ranksPerBinade) := ⟨.inr (by omega), le_rfl⟩
      have units := unitsOfRank_of_valid last
      have lower := unitsOfRank_strictMono.monotone (Nat.le_of_not_lt inside)
      have upper : _ < unitsOfRank (r + 1) := unitsOfRank_strictMono (Nat.lt_succ_self r)
      have passed : 2 * num < twiceMidpoint r * den := by
        calc 2 * num < 2 * (2 * ranksPerBinade * (den * 2 ^ b)) := by omega
          _ = 2 * (2 * ranksPerBinade * 2 ^ b) * den := by ring
          _ ≤ twiceMidpoint r * den := Nat.mul_le_mul_right den (by rw [twiceMidpoint]; omega)
      refine iff_of_false (by omega) ?_
      rintro (beyond | ⟨tie, -⟩) <;> omega

/-! ## Consequences -/

section Nearest

variable {num den num' den' : Nat}

/-- No other magnitude is nearer to the quotient, and if one is as near, the nearest rank is
even. -/
theorem nearestRank_nearest (pos : 0 < den) {r : Nat} (other : r ≠ nearestRank num den) :
    Nat.dist num (unitsOfRank (nearestRank num den) * den) < Nat.dist num (unitsOfRank r * den) ∨
      Nat.dist num (unitsOfRank (nearestRank num den) * den) = Nat.dist num (unitsOfRank r * den) ∧
        nearestRank num den % 2 = 0 := by
  have midpoints := @lt_nearestRank_iff num den pos
  generalize nearestRank num den = n at *
  have increasing {k l : Nat} (le : k ≤ l) : unitsOfRank k * den ≤ unitsOfRank l * den :=
    Nat.mul_le_mul_right den (unitsOfRank_strictMono.monotone le)
  have step (k : Nat) : unitsOfRank k * den < unitsOfRank (k + 1) * den :=
    Nat.mul_lt_mul_of_pos_right (unitsOfRank_strictMono (Nat.lt_succ_self k)) pos
  have midpoint (k : Nat) :
      twiceMidpoint k * den = unitsOfRank k * den + unitsOfRank (k + 1) * den :=
    Nat.add_mul _ _ _
  simp only [Nat.dist]
  rcases Nat.lt_or_gt_of_ne other with below | above
  · obtain ⟨k, rfl⟩ := Nat.exists_eq_add_one_of_ne_zero (Nat.ne_zero_of_lt below)
    have passed := (midpoints k).1 (Nat.lt_succ_self k)
    rw [Beyond, midpoint] at passed
    have lower := increasing (Nat.le_of_lt_succ below)
    have apart := step k
    omega
  · have notPassed := mt (midpoints n).2 (Nat.lt_irrefl n)
    rw [Beyond, midpoint] at notPassed
    have upper := increasing (show n + 1 ≤ r from above)
    have apart := step n
    omega

/-- Rounding is monotone. -/
theorem nearestRank_le_nearestRank (pos : 0 < den) (pos' : 0 < den')
    (le : num * den' ≤ num' * den) : nearestRank num den ≤ nearestRank num' den' := by
  refine le_of_forall_lt fun r lt => ?_
  rw [lt_nearestRank_iff pos] at lt
  rw [lt_nearestRank_iff pos']
  have swap : twiceMidpoint r * den' * den = twiceMidpoint r * den * den' := by ring
  rcases lt with beyond | ⟨tie, odd⟩
  · refine .inl (Nat.lt_of_mul_lt_mul_right (a := den) ?_)
    calc twiceMidpoint r * den' * den = twiceMidpoint r * den * den' := swap
      _ < 2 * num * den' := Nat.mul_lt_mul_of_pos_right beyond pos'
      _ = 2 * (num * den') := Nat.mul_assoc _ _ _
      _ ≤ 2 * (num' * den) := Nat.mul_le_mul_left 2 le
      _ = 2 * num' * den := (Nat.mul_assoc _ _ _).symm
  · have reached : twiceMidpoint r * den' ≤ 2 * num' := by
      refine Nat.le_of_mul_le_mul_right (c := den) ?_ pos
      calc twiceMidpoint r * den' * den = 2 * num * den' := by rw [swap, tie]
        _ = 2 * (num * den') := Nat.mul_assoc _ _ _
        _ ≤ 2 * (num' * den) := Nat.mul_le_mul_left 2 le
        _ = 2 * num' * den := (Nat.mul_assoc _ _ _).symm
    exact (Nat.lt_or_eq_of_le reached).imp id fun same => ⟨same, odd⟩

/-- Rounding depends only on the value of the quotient. -/
theorem nearestRank_congr (pos : 0 < den) (pos' : 0 < den') (same : num * den' = num' * den) :
    nearestRank num den = nearestRank num' den' :=
  Nat.le_antisymm (nearestRank_le_nearestRank pos pos' same.le)
    (nearestRank_le_nearestRank pos' pos same.ge)

/-- What is a magnitude is rounded to itself. -/
theorem nearestRank_unitsOfRank (pos : 0 < den) (r : Nat) :
    nearestRank (unitsOfRank r * den) den = r := by
  have increasing := unitsOfRank_strictMono
  have position (k : Nat) : k < nearestRank (unitsOfRank r * den) den ↔ k < r := by
    rw [lt_nearestRank_iff pos, Beyond, ← Nat.mul_assoc, Nat.mul_lt_mul_right pos,
      Nat.mul_left_inj (by omega), twiceMidpoint]
    rcases Nat.lt_or_ge k r with below | above
    · have here := increasing below
      have next : unitsOfRank (k + 1) ≤ _ := increasing.monotone below
      exact iff_of_true (.inl (by omega)) below
    · have here := increasing.monotone above
      have next : _ < unitsOfRank (k + 1) := increasing (Nat.lt_succ_of_le above)
      exact iff_of_false (by omega) (by omega)
  exact Nat.le_antisymm (Nat.le_of_not_lt fun lt => Nat.lt_irrefl _ ((position _).1 lt))
    (Nat.le_of_not_lt fun lt => Nat.lt_irrefl _ ((position _).2 lt))

end Nearest

end Reckoner
