import Reckoner.Decimal.Numeral
import Reckoner.Proofs.Decimal.Digits

/-!
# How the digits of a result are spelled

Positional or scientific, a positive result is written as digits, a dot, digits, and in the
scientific case an exponent. `Spells` says what both have in common: around the dot stand the
significant digits, with zeros in front of them or behind them, and the dot is where the power of
ten says. Everything that is read off a text comes from there (`exists_text`).
-/

namespace Reckoner

namespace Decimal

/-- The digits in front of the dot and the digits behind it spell the decimal, up to a power of ten:
they are its own digits with zeros around them, and the dot stands in its place. -/
structure Spells (d : Decimal) (whole behind : List Char) (power : Int) : Prop where
  whole_ne_nil : whole ≠ []
  behind_ne_nil : behind ≠ []
  digits : ∃ before after,
    whole ++ behind = List.replicate before '0' ++ d.digits ++ List.replicate after '0' ∧
    power - behind.length + after = d.exponent + 1 - d.digits.length

theorem all_isDigit_replicate_zero (k : Nat) : (List.replicate k '0').all Char.isDigit = true := by
  refine List.all_eq_true.2 fun c member => ?_
  rw [List.eq_of_mem_replicate member]
  rfl

/-- Behind the dot stand the given digits, with a zero if there are none. -/
theorem exists_fraction (digits : List Char) :
    ∃ k, fraction digits = '.' :: (digits ++ List.replicate k '0') ∧
      digits ++ List.replicate k '0' ≠ [] := by
  cases digits with
  | nil => exact ⟨1, rfl, by decide⟩
  | cons c s => exact ⟨0, by simp [fraction], by simp⟩

theorem exists_positional (d : Decimal) :
    ∃ whole behind, d.positional = whole ++ '.' :: behind ∧ Spells d whole behind 0 := by
  unfold positional
  split
  · rename_i nonneg
    obtain ⟨n, exponent⟩ := Int.eq_ofNat_of_zero_le nonneg
    dsimp only
    rw [exponent, Int.toNat_natCast]
    obtain ⟨k, fraction, nonempty⟩ := exists_fraction (d.digits.drop (n + 1))
    rw [fraction]
    refine ⟨_, _, rfl, ?_, nonempty, 0, n + 1 - d.digits.length + k, ?_, ?_⟩
    · rw [← List.length_pos_iff]
      simp
    · rw [List.rightpad, List.length_take]
      rcases Nat.le_total d.digits.length (n + 1) with all | part
      · simp [List.take_of_length_le all, List.drop_of_length_le all,
          List.replicate_append_replicate, Nat.min_eq_right all]
      · rw [Nat.min_eq_left part, Nat.sub_self, Nat.sub_eq_zero_of_le part, Nat.zero_add,
          List.replicate_zero, List.append_nil, ← List.append_assoc, List.take_append_drop,
          List.nil_append]
    · simp only [List.length_append, List.length_drop, List.length_replicate]
      omega
  · rename_i negative
    obtain ⟨k, fraction, nonempty⟩ :=
      exists_fraction (List.replicate (-d.exponent - 1).toNat '0' ++ d.digits)
    rw [fraction]
    refine ⟨['0'], _, rfl, List.cons_ne_nil _ _, nonempty, (-d.exponent - 1).toNat + 1, k, ?_, ?_⟩
    · simp [List.replicate_succ]
    · simp only [List.length_append, List.length_replicate]
      omega

theorem exists_scientific {d : Decimal} (nonempty : d.digits ≠ []) :
    ∃ whole behind, d.scientific = whole ++ '.' :: behind ++ 'E' :: integer d.exponent ∧
      Spells d whole behind d.exponent := by
  have length := List.length_pos_iff.2 nonempty
  obtain ⟨k, fraction, nonemptyBehind⟩ := exists_fraction (d.digits.drop 1)
  rw [scientific, fraction]
  refine ⟨_, _, rfl, ?_, nonemptyBehind, 0, k, ?_, ?_⟩
  · simp [nonempty]
  · rw [← List.append_assoc, List.take_append_drop, List.replicate_zero, List.nil_append]
  · simp only [List.length_append, List.length_drop, List.length_replicate]
    omega

namespace Spells

variable {d : Decimal} {whole behind : List Char} {power : Int}

theorem all_isDigit (spells : Spells d whole behind power)
    (digits : d.digits.all Char.isDigit = true) :
    (whole ++ behind).all Char.isDigit = true := by
  obtain ⟨before, after, same, -⟩ := spells.digits
  rw [same, List.all_append, List.all_append, all_isDigit_replicate_zero,
    all_isDigit_replicate_zero, digits]
  rfl

/-- Of the digits spelled, those of the decimal are the significant ones. -/
theorem significant (spells : Spells d whole behind power) (sig : Significant d.digits) :
    dropTrailingZeros ((whole ++ behind).dropWhile (· == '0')) = d.digits := by
  obtain ⟨before, after, same, -⟩ := spells.digits
  have zeros : (List.replicate before '0').all (· == '0') = true :=
    List.all_eq_true.2 fun c member => by rw [List.eq_of_mem_replicate member]; rfl
  have first : Stops (· == '0') (d.digits ++ List.replicate after '0') := by
    cases digits : d.digits with
    | nil => exact absurd digits sig.ne_nil
    | cons c s =>
      have head := sig.head
      rw [digits, stops_cons_iff] at head
      exact stops_cons_iff.2 head
  rw [same, List.append_assoc, dropWhile_append_of_stops zeros first,
    dropTrailingZeros_append_zeros, sig.last]

end Spells

end Decimal

/-! ## Digits on both sides of a dot -/

namespace Numeral

/-- Digits with a dot between them, as a numeral. -/
def dotted (whole behind : List Char) (digits : (whole ++ behind).all Char.isDigit = true)
    (nonempty : whole ≠ []) : Numeral where
  run := whole ++ '.' :: behind
  all_isDigitOrDot := by
    rw [List.all_append, Bool.and_eq_true] at digits
    have isDigitOrDot_of {s : List Char} (digits : s.all Char.isDigit = true) :
        s.all isDigitOrDot = true :=
      List.all_eq_true.2 fun c member => by
        rw [isDigitOrDot, List.all_eq_true.1 digits c member, Bool.true_or]
    rw [List.all_append, List.all_cons, isDigitOrDot_of digits.1, isDigitOrDot_of digits.2]
    rfl
  any_isDigit := by
    obtain ⟨c, s, rfl⟩ := List.exists_cons_of_ne_nil nonempty
    exact List.any_eq_true.2 ⟨c, by simp, List.all_eq_true.1 digits c (by simp)⟩
  count_dot_le := by
    have noDot : '.' ∉ whole ++ behind := fun member =>
      absurd (List.all_eq_true.1 digits _ member) (by decide)
    rw [List.mem_append, not_or] at noDot
    rw [List.count_append, List.count_cons_self, List.count_eq_zero.2 noDot.1,
      List.count_eq_zero.2 noDot.2]

theorem filter_isDigit_dotted {whole behind : List Char}
    (digits : (whole ++ behind).all Char.isDigit = true) :
    (whole ++ '.' :: behind).filter Char.isDigit = whole ++ behind := by
  rw [List.filter_append, List.filter_cons_of_neg (by decide), ← List.filter_append,
    List.filter_eq_self.2 (List.all_eq_true.1 digits)]

variable {whole behind : List Char} {digits : (whole ++ behind).all Char.isDigit = true}
  {nonempty : whole ≠ []}

@[simp] theorem run_dotted :
    (dotted whole behind digits nonempty).run = whole ++ '.' :: behind := rfl

theorem coefficient_dotted :
    (dotted whole behind digits nonempty).coefficient =
      Nat.ofDigitChars 10 (whole ++ behind) 0 := by
  rw [coefficient, run_dotted, filter_isDigit_dotted digits]

theorem places_dotted : (dotted whole behind digits nonempty).places = behind.length := by
  have noDot : '.' ∉ whole := fun member =>
    not_mem_of_all digits rfl (List.mem_append_left behind member)
  have same : (whole ++ '.' :: behind).dropWhile (· != '.') = '.' :: behind :=
    dropWhile_append_of_stops (all_ne_of_not_mem noDot) (stops_cons_iff.2 rfl)
  rw [places, run_dotted, same, List.length_cons, Nat.add_sub_cancel]

end Numeral

/-! ## The text of a magnitude -/

namespace Magnitude

variable {m : Magnitude}

theorem rank_pos (nonzero : m.isZero = false) : 0 < m.rank :=
  Nat.pos_of_ne_zero (beq_eq_false_iff_ne.1 nonzero)

theorem significant_ofMagnitude (nonzero : m.isZero = false) :
    Decimal.Significant (Decimal.ofMagnitude m).digits := by
  have pos := Shortest.steps_pos (rank_pos nonzero)
  rw [Decimal.ofMagnitude]
  exact Decimal.significant_dropTrailingZeros_toDigits pos

theorem text_of_isPositional (nonzero : m.isZero = false) (kind : m.isPositional = true) :
    m.text = (Decimal.ofMagnitude m).positional := by
  rw [text, nonzero, kind, if_neg Bool.false_ne_true, if_pos rfl]

theorem text_of_not_isPositional (nonzero : m.isZero = false) (kind : m.isPositional = false) :
    m.text = (Decimal.ofMagnitude m).scientific := by
  rw [text, nonzero, kind, if_neg Bool.false_ne_true, if_neg Bool.false_ne_true]

/-- A positive magnitude is written with its shortest decimal around a dot, and with an exponent
behind it if it is not written positionally. -/
theorem exists_text (nonzero : m.isZero = false) :
    ∃ whole behind power, Decimal.Spells (Decimal.ofMagnitude m) whole behind power ∧
      (m.isPositional = true ∧ power = 0 ∧ m.text = whole ++ '.' :: behind ∨
        m.isPositional = false ∧
          m.text = whole ++ '.' :: behind ++ 'E' :: Decimal.integer power) := by
  cases kind : m.isPositional with
  | true =>
    obtain ⟨whole, behind, written, spells⟩ := Decimal.exists_positional (Decimal.ofMagnitude m)
    rw [← text_of_isPositional nonzero kind] at written
    exact ⟨whole, behind, 0, spells, .inl ⟨rfl, rfl, written⟩⟩
  | false =>
    obtain ⟨whole, behind, written, spells⟩ :=
      Decimal.exists_scientific (significant_ofMagnitude nonzero).ne_nil
    rw [← text_of_not_isPositional nonzero kind] at written
    exact ⟨whole, behind, _, spells, .inr ⟨rfl, written⟩⟩

end Magnitude

end Reckoner
