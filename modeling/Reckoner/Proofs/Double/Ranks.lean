import Mathlib.Order.Monotone.Basic
import Mathlib.Tactic.Ring
import Reckoner.Double.Rounding

/-!
# Ranks and their units

A rank is made of a binade and a significand, `binade * ranksPerBinade + significand`, and its
magnitude is `significand * 2 ^ binade` units (`unitsOfRank_of_valid`). The last significand of a
binade is the first one of the next, which is why the bounds of `Valid` are inclusive.

Magnitudes increase with their ranks, in steps of `2 ^ binade` units (`unitsOfRank_succ`), and twice
a magnitude is a magnitude again (`exists_unitsOfRank_eq_double`).
-/

namespace Reckoner

theorem ranksPerBinade_pos : 0 < ranksPerBinade := by decide

/-- A significand of the binade. Only in the first one may it be less than normal. -/
structure Valid (b w : Nat) : Prop where
  normal : b = 0 ∨ ranksPerBinade ≤ w
  le : w ≤ 2 * ranksPerBinade

theorem binade_of_valid {b w : Nat} (valid : Valid b w) (lt : w < 2 * ranksPerBinade) :
    binade (b * ranksPerBinade + w) = b := by
  have pos := ranksPerBinade_pos
  rw [binade, Nat.add_comm, Nat.add_mul_div_right w b pos]
  rcases valid.normal with rfl | normal
  · have few : w / ranksPerBinade < 2 := (Nat.div_lt_iff_lt_mul pos).2 lt
    omega
  · have one : w / ranksPerBinade = 1 := Nat.div_eq_of_lt_le (by omega) lt
    omega

/-- The magnitude of a binade and a significand. -/
theorem unitsOfRank_of_valid {b w : Nat} (valid : Valid b w) :
    unitsOfRank (b * ranksPerBinade + w) = w * 2 ^ b := by
  have inside {b w : Nat} (valid : Valid b w) (lt : w < 2 * ranksPerBinade) :
      unitsOfRank (b * ranksPerBinade + w) = w * 2 ^ b := by
    rw [unitsOfRank, binade_of_valid valid lt, Nat.add_sub_cancel_left]
    rfl
  rcases Nat.lt_or_eq_of_le valid.le with lt | rfl
  · exact inside valid lt
  · -- the end of the binade, as the first significand of the next
    have pos := ranksPerBinade_pos
    have next : b * ranksPerBinade + 2 * ranksPerBinade =
        (b + 1) * ranksPerBinade + ranksPerBinade := by ring
    rw [next, inside ⟨.inr le_rfl, by omega⟩ (by omega)]
    ring

/-- Every rank has a binade, and a significand that is not the last one. -/
theorem exists_valid (r : Nat) :
    ∃ b w, r = b * ranksPerBinade + w ∧ Valid b w ∧ w < 2 * ranksPerBinade := by
  have pos := ranksPerBinade_pos
  have split := Nat.div_add_mod r ranksPerBinade
  have lt := Nat.mod_lt r pos
  rw [Nat.mul_comm] at split
  cases quotient : r / ranksPerBinade with
  | zero =>
    rw [quotient] at split
    exact ⟨0, r, by omega, ⟨.inl rfl, by omega⟩, by omega⟩
  | succ b =>
    rw [quotient, Nat.succ_mul] at split
    exact ⟨b, ranksPerBinade + r % ranksPerBinade, by omega, ⟨.inr (by omega), by omega⟩, by omega⟩

/-- From one magnitude to the next it is the spacing of the binade. -/
theorem unitsOfRank_succ (r : Nat) : unitsOfRank (r + 1) = unitsOfRank r + 2 ^ binade r := by
  obtain ⟨b, w, rfl, valid, lt⟩ := exists_valid r
  have next : Valid b (w + 1) := ⟨valid.normal.imp id (by omega), lt⟩
  rw [Nat.add_assoc, unitsOfRank_of_valid next, unitsOfRank_of_valid valid,
    binade_of_valid valid lt]
  ring

theorem unitsOfRank_strictMono : StrictMono unitsOfRank := by
  refine strictMono_nat_of_lt_succ fun r => ?_
  rw [unitsOfRank_succ]
  exact Nat.lt_add_of_pos_right (Nat.two_pow_pos _)

@[simp] theorem unitsOfRank_zero : unitsOfRank 0 = 0 := by
  simpa using unitsOfRank_of_valid (b := 0) (w := 0) ⟨.inl rfl, Nat.zero_le _⟩

/-- In every binade but the first the spacing is at most one part in `ranksPerBinade`. -/
theorem spacing_le (r : Nat) : binade r = 0 ∨ ranksPerBinade * 2 ^ binade r ≤ unitsOfRank r := by
  obtain ⟨b, w, rfl, valid, lt⟩ := exists_valid r
  rw [binade_of_valid valid lt, unitsOfRank_of_valid valid]
  exact valid.normal.imp id fun normal => Nat.mul_le_mul_right _ normal

/-- Twice a magnitude is a magnitude, if overflow is left aside: the significand doubles as long as
there is no binade below, and otherwise the binade goes up by one. -/
theorem exists_unitsOfRank_eq_double (r : Nat) : ∃ r', unitsOfRank r' = 2 * unitsOfRank r := by
  obtain ⟨b, w, rfl, valid, lt⟩ := exists_valid r
  rw [unitsOfRank_of_valid valid]
  by_cases normal : ranksPerBinade ≤ w
  · exact ⟨_, (unitsOfRank_of_valid ⟨.inr normal, valid.le⟩).trans
      (show w * 2 ^ (b + 1) = 2 * (w * 2 ^ b) by ring)⟩
  · obtain rfl : b = 0 := valid.normal.resolve_right normal
    exact ⟨_, (unitsOfRank_of_valid (b := 0) (w := 2 * w) ⟨.inl rfl, by omega⟩).trans (by ring)⟩

/-- Whole numbers of fifty-three bits are magnitudes at every scale. -/
theorem exists_unitsOfRank_eq {n : Nat} (le : n ≤ 2 * ranksPerBinade) (e : Nat) :
    ∃ r, unitsOfRank r = n * 2 ^ e := by
  induction e with
  | zero => exact ⟨_, unitsOfRank_of_valid (b := 0) ⟨.inl rfl, le⟩⟩
  | succ e ih =>
    obtain ⟨r, units⟩ := ih
    obtain ⟨r', twice⟩ := exists_unitsOfRank_eq_double r
    exact ⟨r', by rw [twice, units]; ring⟩

/-- The binade of the overflow. -/
def overflowBinade : Nat := 2046

/-- The magnitude with which overflow begins. -/
theorem unitsOfRank_overflowRank :
    unitsOfRank overflowRank = ranksPerBinade * 2 ^ overflowBinade := by
  have pos := ranksPerBinade_pos
  have shape : overflowRank = overflowBinade * ranksPerBinade + ranksPerBinade := by decide +kernel
  rw [shape, unitsOfRank_of_valid ⟨.inr le_rfl, by omega⟩]

end Reckoner
