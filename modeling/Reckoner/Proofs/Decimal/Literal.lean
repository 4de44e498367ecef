import Reckoner.Proofs.Decimal.Spelling
import Reckoner.Proofs.Double.Correct
import Reckoner.Proofs.Grammar.Acceptance

/-!
# Numbers as they are typed

A run of digits with at most one dot writes the rational number `exactValue`: what stands in front
of the dot counts as a natural, and each digit behind it one tenth of what a digit counts in front.
Reading the run gives the double for that number (`readValue_run_rounds`), so runs that write the
same number are read alike, with whatever zeros and dots. Every other run of digits and dots is
refused as a whole.
-/

namespace Reckoner

/-! ## The number that is written -/

/-- The number that digits write behind a dot. -/
def fractionValue : List Char → ℚ
  | [] => 0
  | c :: s => ((c.toNat - '0'.toNat : Nat) + fractionValue s) / 10

/-- The number that a run of digits with at most one dot writes. -/
def exactValue (run : List Char) : ℚ :=
  Nat.ofDigitChars 10 (run.takeWhile (· != '.')) 0 + fractionValue (run.dropWhile (· != '.')).tail

theorem fractionValue_eq (s : List Char) :
    fractionValue s = (Nat.ofDigitChars 10 s 0 : ℚ) / 10 ^ s.length := by
  induction s with
  | nil => simp [fractionValue]
  | cons c s ih =>
    have scale : (10 : ℚ) ^ s.length ≠ 0 := pow_ne_zero _ (by norm_num)
    have first := @Nat.ofDigitChars_eq_ofDigitChars_zero s (c.toNat - '0'.toNat)
    rw [fractionValue, ih, Nat.ofDigitChars_cons, Nat.mul_zero, Nat.zero_add, first,
      List.length_cons, pow_succ]
    push_cast
    field_simp

theorem fractionValue_append_zeros (s : List Char) (k : Nat) :
    fractionValue (s ++ List.replicate k '0') = fractionValue s := by
  have scale (n : Nat) : (10 : ℚ) ^ n ≠ 0 := pow_ne_zero _ (by norm_num)
  rw [fractionValue_eq, fractionValue_eq, Nat.ofDigitChars_append, Nat.ofDigitChars_replicate_zero,
    List.length_append, List.length_replicate, pow_add, mul_comm ((10 : ℚ) ^ s.length)]
  push_cast
  exact mul_div_mul_left _ _ (scale k)

section Dots

variable {run whole behind : List Char}

theorem stops_dot (s : List Char) : Stops (· != '.') ('.' :: s) := stops_cons_iff.2 rfl

theorem exactValue_of_not_mem (noDot : '.' ∉ run) : exactValue run = Nat.ofDigitChars 10 run 0 := by
  have front := takeWhile_append_of_stops (all_ne_of_not_mem noDot) stops_nil
  have back := dropWhile_append_of_stops (all_ne_of_not_mem noDot) stops_nil
  rw [List.append_nil] at front back
  rw [exactValue, front, back, List.tail_nil, fractionValue, add_zero]

theorem exactValue_dotted (noDot : '.' ∉ whole) :
    exactValue (whole ++ '.' :: behind) = Nat.ofDigitChars 10 whole 0 + fractionValue behind := by
  rw [exactValue, takeWhile_append_of_stops (all_ne_of_not_mem noDot) (stops_dot behind),
    dropWhile_append_of_stops (all_ne_of_not_mem noDot) (stops_dot behind), List.tail_cons]

theorem all_isDigit_of_not_mem (all : run.all isDigitOrDot = true) (noDot : '.' ∉ run) :
    run.all Char.isDigit = true := by
  refine List.all_eq_true.2 fun c member => ?_
  have known := List.all_eq_true.1 all c member
  rw [isDigitOrDot, Bool.or_eq_true, beq_iff_eq] at known
  exact known.resolve_right (ne_of_mem_of_not_mem member noDot)

/-- A dot divides its run into digits in front of it and digits behind it. -/
theorem exists_dotted (all : run.all isDigitOrDot = true) (dots : run.count '.' ≤ 1)
    (dot : '.' ∈ run) :
    ∃ whole behind, run = whole ++ '.' :: behind ∧ '.' ∉ whole ∧
      (whole ++ behind).all Char.isDigit = true := by
  obtain ⟨whole, behind, rfl⟩ := List.mem_iff_append.1 dot
  rw [List.count_append, List.count_cons_self] at dots
  have noDot : '.' ∉ whole ++ behind := by
    rw [← List.count_eq_zero, List.count_append]
    omega
  refine ⟨whole, behind, rfl, fun member => noDot (List.mem_append_left _ member), ?_⟩
  refine all_isDigit_of_not_mem ?_ noDot
  rw [List.all_append, List.all_cons, Bool.and_eq_true, Bool.and_eq_true] at all
  rw [List.all_append, all.1, all.2.2, Bool.and_self]

/-! Zeros and dots that make no difference. -/

theorem exactValue_zeros_append (k : Nat) (run : List Char) :
    exactValue (List.replicate k '0' ++ run) = exactValue run := by
  have zeros : ∀ c ∈ List.replicate k '0', (c != '.') = true := fun c member => by
    rw [List.eq_of_mem_replicate member]
    rfl
  rw [exactValue, exactValue, List.takeWhile_append_of_pos zeros,
    List.dropWhile_append_of_pos zeros, Nat.ofDigitChars_append, Nat.ofDigitChars_replicate_zero,
    Nat.mul_zero]

theorem exactValue_append_zeros (k : Nat) (dot : '.' ∈ run) :
    exactValue (run ++ List.replicate k '0') = exactValue run := by
  obtain ⟨whole, behind, rfl, noDot⟩ := List.eq_append_cons_of_mem dot
  rw [List.append_assoc, List.cons_append, exactValue_dotted noDot, exactValue_dotted noDot,
    fractionValue_append_zeros]

theorem exactValue_append_dot (noDot : '.' ∉ run) : exactValue (run ++ ['.']) = exactValue run := by
  rw [exactValue_dotted noDot, exactValue_of_not_mem noDot, fractionValue, add_zero]

end Dots

/-! ## The double that is read -/

namespace Numeral

theorem exactValue_run (n : Numeral) :
    exactValue n.run = (n.coefficient : ℚ) / (Nat.pow 10 n.places : Nat) := by
  by_cases dot : '.' ∈ n.run
  · obtain ⟨whole, behind, shape, noDot, digits⟩ :=
      exists_dotted n.all_isDigitOrDot n.count_dot_le dot
    have scale : (10 : ℚ) ^ behind.length ≠ 0 := pow_ne_zero _ (by norm_num)
    have front := @Nat.ofDigitChars_eq_ofDigitChars_zero behind (Nat.ofDigitChars 10 whole 0)
    rw [coefficient, places, shape, filter_isDigit_dotted digits,
      dropWhile_append_of_stops (all_ne_of_not_mem noDot) (stops_dot behind), List.length_cons,
      Nat.add_sub_cancel, exactValue_dotted noDot, fractionValue_eq, Nat.ofDigitChars_append, front,
      Nat.pow_eq]
    push_cast
    rw [add_div, mul_div_cancel_left₀ _ scale]
  · have digits := all_isDigit_of_not_mem n.all_isDigitOrDot dot
    have behind := dropWhile_append_of_stops (all_ne_of_not_mem dot) stops_nil
    rw [List.append_nil] at behind
    rw [coefficient, places, behind, List.filter_eq_self.2 (List.all_eq_true.1 digits),
      exactValue_of_not_mem dot]
    exact (div_one _).symm

theorem pow_places_pos (n : Numeral) : 0 < Nat.pow 10 n.places := Nat.pow_pos (by decide)

theorem roundsTo_value (n : Numeral) : RoundsTo (exactValue n.run) n.value := by
  rw [exactValue_run]
  exact roundsTo_ofFraction n.pow_places_pos

/-- Numerals that write the same number have the same value. -/
theorem value_congr {n n' : Numeral} (same : exactValue n.run = exactValue n'.run) :
    n.value = n'.value := by
  have rounds := n.roundsTo_value
  rw [same] at rounds
  exact rounds.unique n'.roundsTo_value

end Numeral

section Reading

variable {limit : Nat} {run : List Char}

/-- A run of digits and dots is a text of one factor: a numeral, or else it is refused. -/
theorem readValue_run (room : 1 ≤ limit) (nonempty : run ≠ []) (all : run.all isDigitOrDot = true) :
    readValue limit run =
      (Numeral.ofRun? run).elim (.error (.invalidNumber run)) fun n => .ok n.value := by
  obtain ⟨room', rfl⟩ := Nat.exists_eq_add_of_le' room
  have opened := Opening.ofText_run nonempty all stops_nil
  rw [List.append_nil] at opened
  have factor := @Reader.read_factor_succ (room' + 1) room' run
  rw [opened] at factor
  rw [readValue, Expression.read_eq]
  cases valid : Numeral.ofRun? run with
  | some n =>
    simp only [valid] at factor
    have ends (level : Level) (c : Char) (rest : List Char) (ahead : skipSpaces [] = c :: rest) :
        level.operator? c = none := absurd ahead.symm (List.cons_ne_nil c rest)
    rw [Reader.read_chain_of_factor factor ends]
    rfl
  | none =>
    simp only [valid] at factor
    rw [Reader.read_chain_of_factor_error factor]
    rfl

theorem readValue_numeral (room : 1 ≤ limit) (n : Numeral) :
    readValue limit n.run = .ok n.value := by
  have nonempty : n.run ≠ [] := by
    obtain ⟨c, s, -, shape⟩ := n.exists_run_eq_cons
    rw [shape]
    exact List.cons_ne_nil c s
  rw [readValue_run room nonempty n.all_isDigitOrDot, n.ofRun?_run, Option.elim_some]

/-- A run that writes the same number as a numeral is read like it. -/
theorem readValue_of_exactValue (room : 1 ≤ limit) (n : Numeral) (all : run.all isDigitOrDot = true)
    (digit : run.any Char.isDigit = true) (dots : run.count '.' ≤ 1)
    (same : exactValue run = exactValue n.run) : readValue limit run = .ok n.value := by
  have read := readValue_numeral room ⟨run, all, digit, dots⟩
  rwa [Numeral.value_congr same] at read

end Reading

/-- A run of digits with at most one dot is read as the double for the number that it writes, for
which there is no other: infinity from half a step above the greatest magnitude on, and a subnormal
or zero below half a step under the least normal one. Zeros in front, zeros behind a dot and a dot
at the end make no difference. A run without a digit or with a second dot is refused. -/
theorem readValue_run_rounds {limit : Nat} (room : 1 ≤ limit) {run : List Char}
    (nonempty : run ≠ []) (all : run.all isDigitOrDot = true) :
    (run.any Char.isDigit = true → run.count '.' ≤ 1 → ∃ v, readValue limit run = .ok v ∧
      (∀ w, RoundsTo (exactValue run) w ↔ w = v) ∧
      (v = .infinity false ↔ overflowThreshold ≤ exactValue run) ∧
      ((∃ m, v = .finite false m ∧ m.rank < ranksPerBinade) ↔ exactValue run < subnormalThreshold) ∧
      (v = .zero false ↔ exactValue run ≤ underflowThreshold) ∧
      (∀ k, readValue limit (List.replicate k '0' ++ run) = .ok v) ∧
      ('.' ∈ run → ∀ k, readValue limit (run ++ List.replicate k '0') = .ok v) ∧
      ('.' ∉ run → readValue limit (run ++ ['.']) = .ok v)) ∧
    (run.any Char.isDigit = false ∨ 2 ≤ run.count '.' →
      readValue limit run = .error (.invalidNumber run)) := by
  refine ⟨fun digit dots => ?_, fun invalid => ?_⟩
  · obtain ⟨n, rfl⟩ : ∃ n : Numeral, n.run = run := ⟨⟨run, all, digit, dots⟩, rfl⟩
    have rounds := n.roundsTo_value
    have zeros (k : Nat) : (List.replicate k '0').all isDigitOrDot = true :=
      List.all_eq_true.2 fun c member => by rw [List.eq_of_mem_replicate member]; rfl
    have noDots (k : Nat) : (List.replicate k '0').count '.' = 0 :=
      List.count_eq_zero.2 fun member => absurd (List.eq_of_mem_replicate member) (by decide)
    refine ⟨n.value, readValue_numeral room n, fun w => ⟨fun other => other.unique rounds, ?_⟩,
      rounds.eq_infinity_iff, ?_, ?_, fun k => ?_, fun dot k => ?_, fun noDot => ?_⟩
    · rintro rfl
      exact rounds
    · rw [n.exactValue_run]
      exact ofFraction_subnormal_iff n.pow_places_pos
    · rw [n.exactValue_run]
      exact ofFraction_zero_iff n.pow_places_pos
    · refine readValue_of_exactValue room n ?_ ?_ ?_ (exactValue_zeros_append k n.run)
      · rw [List.all_append, zeros, all, Bool.and_self]
      · rw [List.any_append, digit, Bool.or_true]
      · rwa [List.count_append, noDots, Nat.zero_add]
    · refine readValue_of_exactValue room n ?_ ?_ ?_ (exactValue_append_zeros k dot)
      · rw [List.all_append, zeros, all, Bool.and_self]
      · rw [List.any_append, digit, Bool.true_or]
      · rwa [List.count_append, noDots, Nat.add_zero]
    · refine readValue_of_exactValue room n ?_ ?_ ?_ (exactValue_append_dot noDot)
      · rw [List.all_append, all]
        rfl
      · rw [List.any_append, digit, Bool.true_or]
      · rw [List.count_append, List.count_eq_zero.2 noDot, List.count_singleton_self]
  · rw [readValue_run room nonempty all, (Numeral.ofRun?_eq_none_iff all).2 invalid,
      Option.elim_none]

/-- Halfway between two doubles, but for one more digit far behind the dot. -/
def beyondHalfway : List Char := "9007199254740993.".toList ++ List.replicate 300 '0' ++ ['1']

/-- The last digit decides, against the even neighbour. A second dot is refused. -/
theorem readValue_run_rounds_beyondHalfway :
    beyondHalfway ≠ [] ∧ beyondHalfway.all isDigitOrDot = true ∧
    beyondHalfway.any Char.isDigit = true ∧ beyondHalfway.count '.' ≤ 1 ∧
    readValue 1 beyondHalfway = .ok (.ofFraction 9007199254740994 1) ∧
    (∀ w, RoundsTo (exactValue beyondHalfway) w ↔ w = .ofFraction 9007199254740994 1) ∧
    readValue 1 "9007199254740993".toList = .ok (.ofFraction 9007199254740992 1) ∧
    readValue 1 "1.2.".toList = .error (.invalidNumber "1.2.".toList) := by
  have nonempty : beyondHalfway ≠ [] := by decide +kernel
  have all : beyondHalfway.all isDigitOrDot = true := by decide +kernel
  have digit : beyondHalfway.any Char.isDigit = true := by decide +kernel
  have dots : beyondHalfway.count '.' ≤ 1 := by decide +kernel
  have above : readValue 1 beyondHalfway = .ok (.ofFraction 9007199254740994 1) := by decide +kernel
  have even : readValue 1 "9007199254740993".toList = .ok (.ofFraction 9007199254740992 1) := by
    decide +kernel
  obtain ⟨v, read, rounds, -⟩ := (readValue_run_rounds (Nat.le_refl 1) nonempty all).1 digit dots
  have value : v = .ofFraction 9007199254740994 1 := Except.ok.inj (read.symm.trans above)
  rw [value] at rounds
  have refused := (@readValue_run_rounds 1 (Nat.le_refl 1) "1.2.".toList (by decide) (by decide)).2
  exact ⟨nonempty, all, digit, dots, above, rounds, even, refused (.inr (by decide))⟩

end Reckoner
