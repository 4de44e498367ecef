import Reckoner.Evaluation
import Reckoner.Proofs.Expression.Endings
import Reckoner.Proofs.Screening.Decision
import Reckoner.Proofs.Shorthand.Occurrence

/-!
# Lines that pass the screening have all their operands

The screening looks at the last character of the line as it is typed, the reader at the line as it
is written out. Whatever is written out at the end of a line is a call that is closed, so the line
still ends behind an operand (`finishes_expand`); and a power that is written out has its comma
(`powersSeparated_expand`). What is typed as a power may lack it, so those are left out.
-/

namespace Reckoner

theorem LineShape.finishes {s : List Char} (h : LineShape s) : Finishes s := by
  obtain ⟨sign, first, middle, last, rfl, -, -, -, digit⟩ := h
  have final : Finishes [last] := by
    rw [Finishes, List.getLast?_singleton, Option.any_some, endsOperand, digit, Bool.true_or]
  exact ((final.append middle).append [first]).append sign

/-! ## The end of the written-out text -/

/-- A text that ends behind an operand still does if what is written at its very end does. -/
theorem InsertsCalls.finishes_substitute {pattern : Pattern} (calls : InsertsCalls pattern)
    (final : ∀ {t replacement}, pattern.Finds t replacement [] → Finishes t → Finishes replacement)
    {s : List Char} (h : Finishes s) : Finishes (pattern.substitute s) := by
  fun_induction Pattern.substitute pattern s with
  | case1 => exact h
  | case2 c tail found recognised ih =>
    have finds : pattern.Finds (c :: tail) found.replacement found.rest :=
      ⟨found, recognised, rfl, rfl⟩
    by_cases last : found.rest = []
    · rw [last] at finds ⊢
      rw [Pattern.substitute_nil, List.append_nil]
      exact final finds h
    · exact (ih (h.of_suffix (calls.suffix finds) last)).append _
  | case3 c tail none ih =>
    by_cases last : tail = []
    · rwa [last, Pattern.substitute_nil, ← last]
    · exact (ih (h.of_suffix (List.suffix_cons c tail) last)).append [c]

namespace Shorthand

theorem finishes_flooredQuotient (a b : List Char) : Finishes (flooredQuotient a b) :=
  Finishes.append (r := [')']) rfl _

theorem finishes_powerCall (a b : List Char) : Finishes (powerCall a b) :=
  Finishes.append (r := [')']) rfl _

theorem finishes_expand {s : List Char} (h : Finishes s) : Finishes (expand s) := by
  refine digitPower_insertsCalls.finishes_substitute ?_ <|
    openFloor_insertsCalls.finishes_substitute ?_ <|
    doubleSlash_insertsCalls.finishes_substitute ?_ <|
    wholeDivision_insertsCalls.finishes_substitute ?_ h
  · intro t replacement finds _
    obtain ⟨a, b, -, rfl⟩ := digitPower_finds_iff.1 finds
    exact finishes_powerCall _ _
  · intro t replacement finds _
    obtain ⟨a, b, -, -, -, -, rfl, -⟩ := openFloor_finds_iff.1 finds
    exact finishes_flooredQuotient _ _
  · -- a quotient that is left open is not at the end
    intro t replacement finds finishes
    obtain ⟨rfl, -⟩ := doubleSlash_finds_iff.1 finds
    contradiction
  · intro t replacement finds _
    obtain ⟨a, b, -, rfl⟩ := wholeDivision_finds_iff.1 finds
    exact finishes_flooredQuotient _ _

/-! ## The powers of the written-out text -/

/-- The name of the power is nowhere inserted where only floored quotients are. -/
theorem not_power_infix {pattern : Pattern} (calls : InsertsCalls pattern)
    (floors : ∀ {t replacement rest},
      pattern.Finds t replacement rest → floorBegins <+: replacement)
    {s : List Char} (absent : ¬ Builtin.power.name <:+: s) :
    ¬ Builtin.power.name <:+: pattern.substitute s := by
  rintro ⟨u, out, shape⟩
  have output : pattern.substitute s = u ++ 'M' :: ("ath.pow".toList ++ out) := by
    rw [← shape, List.append_assoc]
    rfl
  rcases calls.of_capital (by decide) output with
    ⟨t, word, rest, finds, same⟩ | ⟨u, rest, rfl, -, -⟩
  · -- behind the dot one goes on with a p, the other with an f
    obtain ⟨inside, begins⟩ := floors finds
    rw [floorBegins_eq, List.cons_append, List.cons.injEq] at begins
    rw [← begins.2] at same
    have differ : some 'p' = some 'f' := congrArg (·[4]?) same
    contradiction
  · refine absent ⟨u, rest, ?_⟩
    rw [List.append_assoc]
    rfl

theorem powersSeparated_expand {s : List Char} (absent : ¬ Builtin.power.name <:+: s) :
    PowersSeparated (expand s) := by
  have divided : ¬ Builtin.power.name <:+:
      openFloor.substitute (doubleSlash.substitute (wholeDivision.substitute s)) := by
    refine not_power_infix openFloor_insertsCalls ?_ <|
      not_power_infix doubleSlash_insertsCalls ?_ <|
      not_power_infix wholeDivision_insertsCalls ?_ absent
    · intro t replacement rest finds
      obtain ⟨a, b, -, -, -, -, rfl, -⟩ := openFloor_finds_iff.1 finds
      exact ⟨_, (List.append_assoc ..).symm⟩
    · intro t replacement rest finds
      obtain ⟨-, rfl⟩ := doubleSlash_finds_iff.1 finds
      exact List.prefix_refl _
    · intro t replacement rest finds
      obtain ⟨a, b, -, rfl⟩ := wholeDivision_finds_iff.1 finds
      exact ⟨_, (List.append_assoc ..).symm⟩
  rintro rest ⟨u, shape⟩
  have output : expand s = u ++ 'M' :: ("ath.pow".toList ++ rest) := shape.symm
  rcases digitPower_insertsCalls.of_capital (by decide) output with
    ⟨t, word, behind, finds, same⟩ | ⟨u, behind, kept, -, -⟩
  · obtain ⟨a, b, -, call⟩ := digitPower_finds_iff.1 finds
    rw [powerCall_eq, List.cons.injEq] at call
    refine ⟨a, b.digits ++ ')' :: digitPower.substitute behind, ?_⟩
    have name : "ath.pow(".toList = "ath.pow".toList ++ ['('] := rfl
    rw [call.2, name] at same
    simpa using same
  · refine absurd ⟨u, behind, ?_⟩ divided
    rw [kept, List.append_assoc]
    rfl

end Shorthand

/-- A line that passes the screening, and names no power, is not refused because an operand is
missing at its end. -/
theorem evaluate_ne_abruptEnd {m limit : Nat} {s : List Char} (absent : ¬ "Math.pow".toList <:+: s)
    (passed : screen m s = .ok ()) : evaluate limit s ≠ .error .abruptEnd :=
  readValue_ne_abruptEnd limit (Shorthand.powersSeparated_expand absent)
    (Shorthand.finishes_expand (lineShape_of_screen passed).finishes)

/-- Calls that stay open to the end of the line, one of them typed, and a power for the last
operand. -/
theorem evaluate_ne_abruptEnd_openCalls :
    ¬ "Math.pow".toList <:+: "-1//(2+Math.floor 3//-4^5".toList ∧
    screen 8 "-1//(2+Math.floor 3//-4^5".toList = .ok () ∧
    evaluate 9 "-1//(2+Math.floor 3//-4^5".toList ≠ .error .abruptEnd := by
  have absent : ¬ "Math.pow".toList <:+: "-1//(2+Math.floor 3//-4^5".toList := by decide +kernel
  have passed : screen 8 "-1//(2+Math.floor 3//-4^5".toList = .ok () := by decide +kernel
  exact ⟨absent, passed, evaluate_ne_abruptEnd absent passed⟩

/-- A power that is typed by name may ask for more than there is. -/
example :
    screen 8 "1+Math.pow2".toList = .ok () ∧
    evaluate 9 "1+Math.pow2".toList = .error .abruptEnd := by
  decide +kernel

end Reckoner
