import Reckoner.Double.Arithmetic
import Reckoner.Proofs.Double.Nearest

/-!
# Naturals as doubles

A natural of up to fifty-three bits is a double exactly. The quotient of two such naturals is
rounded, but never up to the next natural: what is missing to it is at least one part in the
divisor, and that is more than half of the spacing there. So the floor of the rounded quotient is
the floor of the exact one (`floor_quotient`).
-/

namespace Reckoner

namespace Double

section Rounding

variable {negative : Bool} {num den num' den' : Nat}

theorem ofUnits_eq_finite_iff {negative' : Bool} {m : Magnitude} :
    ofUnits negative num den = .finite negative' m ↔
      negative = negative' ∧ nearestRank num den = m.rank := by
  unfold ofUnits
  dsimp only
  split
  · constructor
    · intro same
      cases same
      exact ⟨rfl, rfl⟩
    · rintro ⟨rfl, rank⟩
      congr
  · rename_i overflow
    refine iff_of_false (by simp) ?_
    rintro ⟨-, rank⟩
    exact overflow (rank ▸ m.rank_lt)

theorem ofUnits_congr (pos : 0 < den) (pos' : 0 < den') (same : num * den' = num' * den) :
    ofUnits negative num den = ofUnits negative num' den' := by
  simp only [ofUnits, nearestRank_congr pos pos' same]

/-- A magnitude is rounded to itself. -/
theorem ofUnits_units (pos : 0 < den) (m : Magnitude) :
    ofUnits negative (m.units * den) den = .finite negative m :=
  ofUnits_eq_finite_iff.2 ⟨rfl, nearestRank_unitsOfRank pos m.rank⟩

end Rounding

/-- One is this power of two, in units. -/
def unitPlaces : Nat := 1074

theorem unitsPerOne_eq : unitsPerOne = 2 ^ unitPlaces := by decide +kernel

theorem unitsPerOne_pos : 0 < unitsPerOne := by
  rw [unitsPerOne_eq]
  exact Nat.two_pow_pos unitPlaces

/-- The double is this natural. -/
def IsNatural (n : Nat) (v : Double) : Prop :=
  ∃ m, v = .finite false m ∧ m.units = n * unitsPerOne

theorem two_mul_ranksPerBinade : 2 * ranksPerBinade = 2 ^ 53 := by decide +kernel

theorem exists_rank_natural {n : Nat} (le : n ≤ 2 ^ 53) :
    ∃ r, unitsOfRank r = n * unitsPerOne := by
  rw [← two_mul_ranksPerBinade] at le
  rw [unitsPerOne_eq]
  exact exists_unitsOfRank_eq le unitPlaces

/-- A natural of fifty-three bits is a double. -/
theorem exists_magnitude_natural {n : Nat} (le : n ≤ 2 ^ 53) :
    ∃ m : Magnitude, m.units = n * unitsPerOne := by
  obtain ⟨r, units⟩ := exists_rank_natural le
  refine ⟨⟨r, unitsOfRank_strictMono.lt_iff_lt.1 ?_⟩, units⟩
  rw [unitsOfRank_overflowRank, units, unitsPerOne_eq]
  calc n * 2 ^ unitPlaces ≤ 2 * ranksPerBinade * 2 ^ unitPlaces :=
        Nat.mul_le_mul_right _ (two_mul_ranksPerBinade ▸ le)
    _ = ranksPerBinade * 2 ^ (unitPlaces + 1) := by ring
    _ < ranksPerBinade * 2 ^ overflowBinade :=
        Nat.mul_lt_mul_of_pos_left (Nat.pow_lt_pow_right (by decide) (by decide)) ranksPerBinade_pos

/-- Below a quotient that is rounded, the spacing is less than two parts in the divisor. -/
theorem spacing_mul_lt {a b r : Nat} (leA : a ≤ 2 ^ 53) (leB : b ≤ 2 ^ 53) (inexact : a % b ≠ 0)
    (below : unitsOfRank r < (a / b + 1) * unitsPerOne) :
    2 ^ binade r * b < 2 * unitsPerOne := by
  rw [unitsPerOne_eq] at below ⊢
  have pos : 0 < 2 ^ unitPlaces := Nat.two_pow_pos unitPlaces
  by_cases small : 53 + binade r ≤ unitPlaces
  · calc 2 ^ binade r * b ≤ 2 ^ binade r * 2 ^ 53 := Nat.mul_le_mul_left _ leB
      _ = 2 ^ (53 + binade r) := by rw [← Nat.pow_add, Nat.add_comm]
      _ ≤ 2 ^ unitPlaces := Nat.pow_le_pow_right (by decide) small
      _ < 2 * 2 ^ unitPlaces := by omega
  · -- the spacing is a power of two, and so at most what the quotient leaves of fifty-two bits
    have many : 53 ≤ unitPlaces := by decide
    obtain ⟨k, exponent⟩ := Nat.exists_eq_add_of_le (show unitPlaces ≤ 52 + binade r by omega)
    have spread : ranksPerBinade * 2 ^ binade r = 2 ^ k * 2 ^ unitPlaces := by
      rw [ranksPerBinade, Nat.pow_eq, ← Nat.pow_add, exponent, Nat.pow_add, Nat.mul_comm]
    have whole : 2 ^ k ≤ a / b := by
      refine Nat.le_of_lt_succ (Nat.lt_of_mul_lt_mul_right (a := 2 ^ unitPlaces) ?_)
      rw [← spread]
      exact Nat.lt_of_le_of_lt ((spacing_le r).resolve_left (by omega)) below
    have least : a / b * b < 2 * ranksPerBinade := by
      have division := Nat.div_add_mod a b
      rw [Nat.mul_comm] at division
      rw [two_mul_ranksPerBinade]
      omega
    refine Nat.lt_of_mul_lt_mul_left (a := ranksPerBinade) ?_
    calc ranksPerBinade * (2 ^ binade r * b) = 2 ^ k * b * 2 ^ unitPlaces := by
          rw [← Nat.mul_assoc, spread]
          ring
      _ ≤ a / b * b * 2 ^ unitPlaces := by gcongr
      _ < 2 * ranksPerBinade * 2 ^ unitPlaces := Nat.mul_lt_mul_of_pos_right least pos
      _ = ranksPerBinade * (2 * 2 ^ unitPlaces) := by ring

/-- A quotient that is not whole is rounded to something less than the next natural. -/
theorem nearestRank_quotient_lt {a b : Nat} (leA : a ≤ 2 ^ 53) (pos : 0 < b) (leB : b ≤ 2 ^ 53)
    (inexact : a % b ≠ 0) :
    unitsOfRank (nearestRank (a * unitsPerOne) b) < (a / b + 1) * unitsPerOne := by
  have division := Nat.div_add_mod a b
  have remainder := Nat.mod_lt a pos
  rw [Nat.mul_comm] at division
  have next : a / b + 1 ≤ 2 ^ 53 := by
    have whole : a / b ≤ a / b * b := Nat.le_mul_of_pos_right _ pos
    omega
  obtain ⟨r, units⟩ := exists_rank_natural next
  obtain ⟨r, rfl⟩ : ∃ r', r = r' + 1 := by
    refine Nat.exists_eq_succ_of_ne_zero ?_
    rintro rfl
    rw [unitsOfRank_zero] at units
    exact absurd units.symm (Nat.mul_pos (Nat.succ_pos _) unitsPerOne_pos).ne'
  have spacing := unitsOfRank_succ r
  have below : unitsOfRank r < (a / b + 1) * unitsPerOne :=
    units ▸ unitsOfRank_strictMono (Nat.lt_succ_self r)
  have narrow := spacing_mul_lt leA leB inexact below
  -- the midpoint below the natural lies beyond the quotient
  have midpoint : 2 * (a * unitsPerOne) < twiceMidpoint r * b := by
    have sum : twiceMidpoint r + 2 ^ binade r = 2 * ((a / b + 1) * unitsPerOne) := by
      rw [twiceMidpoint]
      omega
    have scaled : twiceMidpoint r * b + 2 ^ binade r * b =
        2 * ((a / b * b + b) * unitsPerOne) := by
      rw [← Nat.add_mul, sum]
      ring
    have more : (a + 1) * unitsPerOne ≤ (a / b * b + b) * unitsPerOne :=
      Nat.mul_le_mul_right _ (by omega)
    rw [Nat.succ_mul] at more
    omega
  have above : ¬ r < nearestRank (a * unitsPerOne) b := by
    rw [lt_nearestRank_iff pos]
    rintro (beyond | ⟨tie, -⟩) <;> omega
  exact Nat.lt_of_le_of_lt (unitsOfRank_strictMono.monotone (Nat.le_of_not_lt above)) below

/-- The quotient of two naturals, rounded, has the floor of the exact quotient. -/
theorem nearestRank_quotient_div {a b : Nat} (leA : a ≤ 2 ^ 53) (pos : 0 < b) (leB : b ≤ 2 ^ 53) :
    unitsOfRank (nearestRank (a * unitsPerOne) b) / unitsPerOne = a / b := by
  obtain ⟨low, units⟩ := exists_rank_natural (Nat.le_trans (Nat.div_le_self a b) leA)
  have exact : nearestRank (a / b * b * unitsPerOne) b = low := by
    have same : a / b * b * unitsPerOne = unitsOfRank low * b := by rw [units]; ring
    rw [same, nearestRank_unitsOfRank pos]
  have lower : low ≤ nearestRank (a * unitsPerOne) b := by
    rw [← exact]
    refine nearestRank_le_nearestRank pos pos (Nat.mul_le_mul_right b (Nat.mul_le_mul_right _ ?_))
    exact Nat.div_mul_le_self a b
  refine Nat.div_eq_of_lt_le ?_ ?_
  · rw [← units]
    exact unitsOfRank_strictMono.monotone lower
  · by_cases whole : a % b = 0
    · rw [Nat.div_mul_cancel (Nat.dvd_of_mod_eq_zero whole)] at exact
      rw [exact, units]
      exact Nat.mul_lt_mul_of_pos_right (Nat.lt_succ_self _) unitsPerOne_pos
    · exact nearestRank_quotient_lt leA pos leB whole

/-! ## Arithmetic on naturals -/

theorem isNatural_ofFraction {n : Nat} (le : n ≤ 2 ^ 53) : IsNatural n (.ofFraction n 1) := by
  obtain ⟨m, units⟩ := exists_magnitude_natural le
  refine ⟨m, ?_, units⟩
  rw [ofFraction, ← units, ← Nat.mul_one m.units, ofUnits_units Nat.one_pos]

theorem mul_finite (s t : Bool) (x y : Magnitude) :
    (.finite s x * .finite t y : Double) = ofUnits (s != t) (x.units * y.units) unitsPerOne := by
  show Double.mul (.finite s x) (.finite t y) = _
  rw [Double.mul]

theorem div_finite (s t : Bool) (x : Magnitude) {y : Magnitude} (nonzero : y.isZero = false) :
    (.finite s x / .finite t y : Double) = ofUnits (s != t) (x.units * unitsPerOne) y.units := by
  show Double.div (.finite s x) (.finite t y) = _
  rw [Double.div, nonzero, if_neg Bool.false_ne_true]

theorem floor_positive (m : Magnitude) :
    floor (.finite false m) = ofUnits false (m.units / unitsPerOne * unitsPerOne) 1 := by
  simp only [floor, Bool.false_eq_true, if_false]

theorem IsNatural.one_mul {n : Nat} {one v : Double} (isOne : IsNatural 1 one)
    (natural : IsNatural n v) : IsNatural n (one * v) := by
  obtain ⟨m, rfl, units⟩ := natural
  obtain ⟨k, rfl, unitsOne⟩ := isOne
  refine ⟨m, ?_, units⟩
  rw [mul_finite, unitsOne, Nat.one_mul, Nat.mul_comm, ofUnits_units unitsPerOne_pos,
    bne_self_eq_false]

theorem isZero_eq_false {n : Nat} {m : Magnitude} (pos : 0 < n)
    (units : m.units = n * unitsPerOne) : m.isZero = false := by
  rw [Magnitude.isZero, beq_eq_false_iff_ne]
  intro zero
  rw [Magnitude.units, zero, unitsOfRank_zero] at units
  exact absurd units.symm (Nat.mul_pos pos unitsPerOne_pos).ne'

/-- The floor of a rounded quotient of naturals is the quotient of the naturals. -/
theorem floor_quotient {a b : Nat} (leA : a ≤ 2 ^ 53) (pos : 0 < b) (leB : b ≤ 2 ^ 53)
    {x y : Double} (dividend : IsNatural a x) (divisor : IsNatural b y) :
    IsNatural (a / b) (x / y).floor := by
  obtain ⟨m, rfl, unitsDividend⟩ := dividend
  obtain ⟨k, rfl, unitsDivisor⟩ := divisor
  -- a quotient is at most its dividend, and so does not overflow
  have small : nearestRank (a * unitsPerOne) b < overflowRank := by
    refine Nat.lt_of_le_of_lt ?_ m.rank_lt
    rw [← nearestRank_unitsOfRank Nat.one_pos m.rank]
    refine nearestRank_le_nearestRank pos Nat.one_pos ?_
    rw [Nat.mul_one, Nat.mul_one, ← unitsDividend]
    exact Nat.le_mul_of_pos_right _ pos
  have quotient : (.finite false m / .finite false k : Double) =
      .finite false ⟨nearestRank (a * unitsPerOne) b, small⟩ := by
    have same : a * unitsPerOne * unitsPerOne * b = a * unitsPerOne * (b * unitsPerOne) := by ring
    rw [div_finite _ _ _ (isZero_eq_false pos unitsDivisor), unitsDividend, unitsDivisor,
      ofUnits_congr (Nat.mul_pos pos unitsPerOne_pos) pos same, ofUnits_eq_finite_iff]
    exact ⟨rfl, rfl⟩
  rw [quotient, floor_positive, Magnitude.units, nearestRank_quotient_div leA pos leB]
  exact isNatural_ofFraction (Nat.le_trans (Nat.div_le_self a b) leA)

end Double

end Reckoner
