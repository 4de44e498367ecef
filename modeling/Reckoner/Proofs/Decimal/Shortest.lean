import Mathlib.Tactic.Ring
import Reckoner.Decimal.Shortest
import Reckoner.Proofs.Double.Nearest

/-!
# The choice of the shortest decimal

The decimals that read back as a magnitude form an interval around its exact value
(`readsBack_of_between`). So on any grid it is enough to look at the two neighbours of the exact
value (`isSome_onGrid?`), and the search from the coarsest grid downward ends on every grid that has
a decimal to offer (`chosen_search`).
-/

namespace Reckoner.Shortest

theorem stepsPerUnit_pos : 0 < stepsPerUnit := by decide +kernel

theorem readsBack_iff {rank steps : Nat} :
    readsBack rank steps = true ↔ nearestRank steps stepsPerUnit = rank := beq_iff_eq

/-- The exact value reads back. -/
theorem readsBack_exactSteps (rank : Nat) : readsBack rank (exactSteps rank) = true :=
  readsBack_iff.2 (nearestRank_unitsOfRank stepsPerUnit_pos rank)

/-- Whatever lies between the exact value and a quotient that is rounded to the magnitude reads
back. -/
theorem readsBack_of_between {rank num den steps : Nat} (pos : 0 < den)
    (rounded : nearestRank num den = rank)
    (between : exactSteps rank ≤ steps ∧ steps * den ≤ num * stepsPerUnit ∨
      steps ≤ exactSteps rank ∧ num * stepsPerUnit ≤ steps * den) :
    readsBack rank steps = true := by
  have exact := readsBack_iff.1 (readsBack_exactSteps rank)
  rw [readsBack_iff]
  rcases between with ⟨above, below⟩ | ⟨below, above⟩
  · refine Nat.le_antisymm ?_ ?_
    · exact rounded ▸ nearestRank_le_nearestRank stepsPerUnit_pos pos below
    · have atLeast := nearestRank_le_nearestRank stepsPerUnit_pos stepsPerUnit_pos
        (Nat.mul_le_mul_right stepsPerUnit above)
      rwa [exact] at atLeast
  · refine Nat.le_antisymm ?_ ?_
    · have atMost := nearestRank_le_nearestRank stepsPerUnit_pos stepsPerUnit_pos
        (Nat.mul_le_mul_right stepsPerUnit below)
      rwa [exact] at atMost
    · exact rounded ▸ nearestRank_le_nearestRank pos stepsPerUnit_pos above

section Grid

variable {rank grid : Nat}

/-- What is chosen on a grid reads back, and is one of the two neighbours of the exact value. -/
theorem onGrid?_spec {steps : Nat} (chosen : onGrid? rank grid = some steps) :
    readsBack rank steps = true ∧
      (steps = exactSteps rank / grid * grid ∨
        steps = exactSteps rank / grid * grid + grid) := by
  unfold onGrid? at chosen
  dsimp only at chosen
  generalize exactSteps rank / grid * grid = below at chosen ⊢
  split at chosen
  · rename_i lower
    rw [Bool.and_eq_true] at lower
    cases chosen
    exact ⟨lower.1, .inl rfl⟩
  · split at chosen
    · rename_i upper
      cases chosen
      exact ⟨upper, .inr rfl⟩
    · cases chosen

/-- A decimal of the grid that reads back is no nearer than one of the two neighbours, so that one
reads back too. -/
theorem isSome_onGrid? (pos : 0 < grid) {n : Nat} (reads : readsBack rank (n * grid) = true) :
    (onGrid? rank grid).isSome := by
  have rounded := readsBack_iff.1 reads
  have division := Nat.div_add_mod (exactSteps rank) grid
  have remainder := Nat.mod_lt (exactSteps rank) pos
  rw [Nat.mul_comm] at division
  have neighbour : readsBack rank (exactSteps rank / grid * grid) = true ∨
      readsBack rank (exactSteps rank / grid * grid + grid) = true := by
    rcases Nat.lt_or_ge (exactSteps rank / grid) n with above | below
    · have far : (exactSteps rank / grid + 1) * grid ≤ n * grid := Nat.mul_le_mul_right grid above
      rw [Nat.succ_mul] at far
      exact .inr (readsBack_of_between stepsPerUnit_pos rounded
        (.inl ⟨by omega, Nat.mul_le_mul_right _ far⟩))
    · have far : n * grid ≤ exactSteps rank / grid * grid := Nat.mul_le_mul_right grid below
      exact .inl (readsBack_of_between stepsPerUnit_pos rounded
        (.inr ⟨by omega, Nat.mul_le_mul_right _ far⟩))
  unfold onGrid?
  dsimp only
  generalize exactSteps rank / grid * grid = below at neighbour ⊢
  split
  · rfl
  · split
    · rfl
    · rename_i notLower notUpper
      have lower := neighbour.resolve_right notUpper
      simp [lower, notUpper] at notLower

end Grid

/-- What a search is to find that begins with the grid `10 ^ k`: a decimal that reads back and lies
on every grid on which some decimal reads back. It does not pass a decimal of the first grid on the
way from the exact value. -/
structure Chosen (rank k steps : Nat) : Prop where
  reads : readsBack rank steps = true
  coarsest : ∀ i ≤ k, ∀ n, readsBack rank (n * 10 ^ i) = true → 10 ^ i ∣ steps
  least : ∀ n, n * 10 ^ k ≤ exactSteps rank → n * 10 ^ k ≤ steps
  most : ∀ n, exactSteps rank < n * 10 ^ k → steps ≤ n * 10 ^ k

/-- What the grid offers is what the search is to find. -/
theorem chosen_of_onGrid?_eq_some {rank k steps : Nat}
    (found : onGrid? rank (10 ^ k) = some steps) :
    Chosen rank k steps := by
  obtain ⟨reads, neighbour⟩ := onGrid?_spec found
  have pos : 0 < 10 ^ k := Nat.pow_pos (by decide)
  have multiple : 10 ^ k ∣ steps := by
    rcases neighbour with rfl | rfl
    · exact Nat.dvd_mul_left _ _
    · exact Nat.dvd_add (Nat.dvd_mul_left _ _) (Nat.dvd_refl _)
  refine ⟨reads, fun i le _ _ => (Nat.pow_dvd_pow 10 le).trans multiple, fun n le => ?_,
    fun n lt => ?_⟩
  · have below : n * 10 ^ k ≤ exactSteps rank / 10 ^ k * 10 ^ k :=
      Nat.mul_le_mul_right _ ((Nat.le_div_iff_mul_le pos).2 le)
    omega
  · have above : (exactSteps rank / 10 ^ k + 1) * 10 ^ k ≤ n * 10 ^ k :=
      Nat.mul_le_mul_right _ ((Nat.div_lt_iff_lt_mul pos).2 lt)
    rw [Nat.succ_mul] at above
    omega

/-- The search finds it: grid by grid, down to the exact value. -/
theorem chosen_search (rank k : Nat) : Chosen rank k (search rank k) := by
  induction k with
  | zero =>
    refine ⟨readsBack_exactSteps rank, fun i le _ _ => ?_, fun n le => le, fun n lt => lt.le⟩
    rw [Nat.le_zero.1 le]
    exact Nat.one_dvd _
  | succ k ih =>
    rw [search, Nat.pow_eq]
    cases grid : onGrid? rank (10 ^ (k + 1)) with
    | some steps => exact chosen_of_onGrid?_eq_some grid
    | none =>
      -- nothing on this grid reads back, and its decimals are also on the next one
      have finer (n : Nat) : n * 10 ^ (k + 1) = n * 10 * 10 ^ k := by ring
      refine ⟨ih.reads, fun i le n reads => ?_, fun n le => ?_, fun n lt => ?_⟩
      · rcases Nat.lt_or_eq_of_le le with lt | rfl
        · exact ih.coarsest i (Nat.le_of_lt_succ lt) n reads
        · have some := isSome_onGrid? (Nat.pow_pos (by decide)) reads
          rw [grid] at some
          cases some
      · rw [finer] at le ⊢
        exact ih.least _ le
      · rw [finer] at lt ⊢
        exact ih.most _ lt

end Reckoner.Shortest
