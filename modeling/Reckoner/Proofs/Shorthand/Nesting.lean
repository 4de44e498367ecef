import Reckoner.Proofs.Expression.Charge
import Reckoner.Proofs.Expression.Threshold
import Reckoner.Proofs.Screening.Decision
import Reckoner.Proofs.Shorthand.Occurrence

/-!
# Nesting of written-out shorthand

A line is refused for its depth only if what was typed nests: the limit is at most the number of its
operators, opening parentheses and lowercase letters. The limit applies to the line as it is written
out, where shorthand has become calls; but none of the substitutions raises the charge of a text
(`Thrifty.charge_substitute_le`), since a call is inserted only for a slash or a caret that it takes
away.
-/

namespace Reckoner

open Shorthand

/-! ## The charge of calls -/

theorem isCharged_of_isDigit {c : Char} (digit : c.isDigit = true) : isCharged c = false := by
  rw [Bool.eq_false_iff]
  intro charged
  simp only [isCharged, Bool.or_eq_true, beq_iff_eq] at charged
  rcases charged with ((((rfl | rfl) | rfl) | rfl) | rfl) | letter
  case inr =>
    have noDigit := isDigitOrDot_of_isLower letter
    rw [isDigitOrDot, digit] at noDigit
    contradiction
  all_goals contradiction

theorem charge_digits_append (a : DigitRun) (s : List Char) :
    charge (a.digits ++ s) = charge s := by
  have free : a.digits.countP isCharged = 0 := by
    rw [List.countP_eq_zero]
    intro c member
    rw [isCharged_of_isDigit (List.all_eq_true.1 a.all_isDigit c member)]
    exact Bool.false_ne_true
  rw [charge_append (a.not_mem rfl), free, Nat.add_zero]

theorem charge_symbol_append {c : Char} (h : c ≠ 'M') (s : List Char) :
    charge (c :: s) = charge s + if isCharged c then 1 else 0 :=
  charge_cons (insideCall?_eq_none h s)

theorem charge_floorBegins_append (s : List Char) : charge (floorBegins ++ s) = charge s + 1 := by
  have shape :
      floorBegins ++ s = Builtin.floor.name ++ '(' :: (onePointZero.run ++ ['*'] ++ s) := by
    rw [floorBegins_eq_call, List.append_assoc, List.cons_append]
  rw [shape, charge_call, charge_append (by decide)]
  rfl

theorem charge_flooredQuotient_append (a b : DigitRun) (s : List Char) :
    charge (flooredQuotient a.digits b.digits ++ s) = charge s + 2 := by
  have shape : flooredQuotient a.digits b.digits ++ s =
      floorBegins ++ (a.digits ++ '/' :: (b.digits ++ ')' :: s)) := by simp [flooredQuotient]
  rw [shape, charge_floorBegins_append, charge_digits_append, charge_symbol_append (by simp),
    charge_digits_append, charge_symbol_append (by simp)]
  rfl

theorem charge_powerCall_append (a b : DigitRun) (s : List Char) :
    charge (powerCall a.digits b.digits ++ s) = charge s + 1 := by
  have shape : powerCall a.digits b.digits ++ s =
      Builtin.power.name ++ '(' :: (a.digits ++ ',' :: (b.digits ++ ')' :: s)) := by
    simp only [powerCall_eq_call, List.append_assoc, List.cons_append, List.nil_append]
  rw [shape, charge_call, charge_digits_append, charge_symbol_append (by simp),
    charge_digits_append, charge_symbol_append (by simp)]
  rfl

/-! ## Substitutions -/

/-- Behind the capital M of a call in parentheses there is nothing that a pattern could begin
with. -/
theorem Builtin.exists_begins_eq (function : Builtin) :
    ∃ letters, function.name ++ ['('] = 'M' :: letters ∧
      letters.all (fun c => !c.isDigit && c != '/' && c != 'M') = true := by
  cases function
  · exact ⟨"ath.pow(".toList, rfl, by decide⟩
  · exact ⟨"ath.floor(".toList, rfl, by decide⟩

/-- The pattern finds nothing at a letter of a name, and what it inserts is charged no more than
what it takes. -/
structure Thrifty (pattern : Pattern) : Prop where
  misses : ∀ {c} s, c.isDigit = false → c ≠ '/' → c ≠ 'M' → pattern.Misses (c :: s)
  charge_le : ∀ {s replacement rest} out, pattern.Finds s replacement rest →
    charge out ≤ charge rest → charge (replacement ++ out) ≤ charge s

namespace Thrifty

variable {pattern : Pattern}

/-- A call in parentheses is kept if nothing is found where it begins, for nothing is found at a
later letter of it. -/
theorem substitute_call (h : Thrifty pattern) {function : Builtin} {s : List Char}
    (none : pattern.Misses (function.name ++ '(' :: s)) :
    pattern.substitute (function.name ++ '(' :: s) =
      function.name ++ '(' :: pattern.substitute s := by
  obtain ⟨letters, begins, plain⟩ := function.exists_begins_eq
  have shape (v : List Char) : function.name ++ '(' :: v = 'M' :: (letters ++ v) := by
    rw [← List.cons_append, ← begins, List.append_assoc, List.singleton_append]
  rw [shape] at none
  rw [shape, shape, Pattern.substitute_of_none none]
  refine congrArg ('M' :: ·) (Pattern.substitute_append_of_misses fun x nonempty suffix => ?_)
  obtain ⟨c, x, rfl⟩ := List.exists_cons_of_ne_nil nonempty
  have other := List.all_eq_true.1 plain c (suffix.subset List.mem_cons_self)
  simp only [Bool.and_eq_true, Bool.not_eq_true', bne_iff_ne] at other
  obtain ⟨⟨noDigit, noSlash⟩, noCapital⟩ := other
  exact h.misses _ noDigit noSlash noCapital

/-- The induction is on the length of the text, because the search goes on behind a whole call. -/
theorem charge_substitute_le (h : Thrifty pattern) (s : List Char) :
    charge (pattern.substitute s) ≤ charge s := by
  induction size : s.length using Nat.strongRecOn generalizing s with
  | ind n ih =>
    subst size
    cases s with
    | nil => exact Nat.le_of_eq (congrArg charge (Pattern.substitute_nil pattern))
    | cons c s =>
      cases recognised : pattern (c :: s) with
      | some found =>
        rw [Pattern.substitute_of_some recognised]
        exact h.charge_le _ ⟨found, recognised, rfl, rfl⟩ (ih _ found.length_lt found.rest rfl)
      | none =>
        cases called : insideCall? (c :: s) with
        | some inside =>
          have le := ih _ (length_lt_of_insideCall? called) inside rfl
          obtain ⟨function, shape⟩ := insideCall?_eq_some_iff.1 called
          rw [shape] at recognised ⊢
          rw [h.substitute_call recognised, charge_call, charge_call]
          omega
        | none =>
          have le := ih _ (Nat.lt_succ_self _) s rfl
          have kept := charge_cons_le c (pattern.substitute s)
          rw [Pattern.substitute_of_none recognised, charge_cons called]
          omega

end Thrifty

namespace Shorthand

theorem thrifty_wholeDivision : Thrifty wholeDivision where
  misses s noDigit _ _ := wholeDivision_eq_none_of_stops (stops_cons_iff.2 noDigit)
  charge_le out finds le := by
    obtain ⟨a, b, ⟨rfl, -⟩, rfl⟩ := wholeDivision_finds_iff.1 finds
    rw [charge_flooredQuotient_append, charge_digits_append, charge_append (by decide),
      charge_digits_append]
    exact Nat.add_le_add_right le 2

theorem thrifty_doubleSlash : Thrifty doubleSlash where
  misses s _ noSlash _ := doubleSlash_eq_none (by simp [noSlash.symm])
  charge_le out finds le := by
    obtain ⟨rfl, rfl⟩ := doubleSlash_finds_iff.1 finds
    rw [charge_floorBegins_append, charge_symbol_append (by simp), charge_symbol_append (by simp)]
    exact Nat.le_succ_of_le (Nat.add_le_add_right le 1)

theorem thrifty_openFloor : Thrifty openFloor where
  misses s _ _ noCapital := openFloor_eq_none noCapital
  charge_le out finds le := by
    obtain ⟨a, b, inside, behind, rfl, ⟨rfl, -⟩, rfl, rfl⟩ := openFloor_finds_iff.1 finds
    have dropped : charge (dropParenthesis behind) ≤ charge behind := by
      unfold dropParenthesis
      split
      · exact charge_le_append (u := [')']) (by simp) _
      · exact Nat.le_refl _
    rw [charge_flooredQuotient_append, charge_floorBegins_append, charge_digits_append,
      charge_append (by decide), charge_digits_append]
    exact Nat.add_le_add_right (Nat.le_trans le dropped) 2

theorem thrifty_digitPower : Thrifty digitPower where
  misses s noDigit _ _ := digitPower_eq_none_of_stops (stops_cons_iff.2 noDigit)
  charge_le out finds le := by
    obtain ⟨a, b, ⟨rfl, -⟩, rfl⟩ := digitPower_finds_iff.1 finds
    rw [charge_powerCall_append, charge_digits_append, charge_append (by decide),
      charge_digits_append]
    exact Nat.add_le_add_right le 1

theorem charge_expand_le (s : List Char) : charge (expand s) ≤ charge s :=
  calc charge (expand s)
      ≤ charge (openFloor.substitute (doubleSlash.substitute (wholeDivision.substitute s))) :=
        thrifty_digitPower.charge_substitute_le _
    _ ≤ charge (doubleSlash.substitute (wholeDivision.substitute s)) :=
        thrifty_openFloor.charge_substitute_le _
    _ ≤ charge (wholeDivision.substitute s) := thrifty_doubleSlash.charge_substitute_le _
    _ ≤ charge s := thrifty_wholeDivision.charge_substitute_le s

end Shorthand

/-! ## Lines -/

/-- What is charged has been typed: as an operator, a parenthesis or a letter. -/
theorem countP_isCharged_le (s : List Char) :
    s.countP isCharged ≤ countOperators s + s.count '(' + s.countP Char.isLower := by
  induction s with
  | nil => exact Nat.le_refl 0
  | cons c s ih =>
    have typed : (if isCharged c then 1 else 0) ≤ (if isOperatorSymbol c then 1 else 0) +
        (if c == '(' then 1 else 0) + (if c.isLower then 1 else 0) := by
      grind [isCharged, isOperatorSymbol]
    unfold countOperators at ih ⊢
    rw [List.countP_cons, List.countP_cons, List.countP_cons, List.count_cons]
    omega

theorem le_charge_of_exceeds {limit : Nat} {s : List Char} (h : Exceeds limit s) :
    limit ≤ charge s := by
  refine Nat.le_of_not_lt fun lt => ?_
  have within : charge (Reader.purse (.chain .additive) s) < limit := lt
  exact Reader.not_tooDeep_read within h

theorem le_of_evaluate_tooDeep {limit k : Nat} {s : List Char}
    (h : evaluate limit s = .error (.nestingTooDeep k)) :
    limit ≤ countOperators s + s.count '(' + s.countP Char.isLower :=
  calc limit ≤ charge (expand s) := le_charge_of_exceeds (exceeds_of_readValue h)
    _ ≤ charge s := charge_expand_le s
    _ ≤ s.countP isCharged := charge_le_countP s
    _ ≤ _ := countP_isCharged_le s

/-- The limit refuses only what nests as it is typed. A line that passes the screening, and has
neither a parenthesis nor a lowercase letter, is never refused for its depth by a limit beyond the
number of operators that it may have, whatever its shorthand is written out as. -/
theorem evaluate_tooDeep_needs_typed :
    (∀ limit s, evaluate limit s = .error (.nestingTooDeep limit) →
      limit ≤ countOperators s + s.count '(' + s.countP Char.isLower) ∧
    ∀ m limit s, screen m s = .ok () → '(' ∉ s → (∀ c ∈ s, c.isLower = false) → m < limit →
      ∀ k, evaluate limit s ≠ .error (.nestingTooDeep k) := by
  refine ⟨fun limit s => le_of_evaluate_tooDeep, ?_⟩
  intro m limit s passed noParen noLetter lt k refused
  have few := countOperators_le_of_screen passed
  have le := le_of_evaluate_tooDeep refused
  have letters : s.countP Char.isLower = 0 :=
    List.countP_eq_zero.2 fun c member => by simp [noLetter c member]
  rw [List.count_eq_zero.2 noParen, letters] at le
  omega

/-- Two parentheses are refused by a limit of two; shorthand is not refused by a limit just beyond
the number of operators that the screening lets pass. -/
theorem evaluate_tooDeep_of_parentheses :
    evaluate 2 "((1".toList = .error (.nestingTooDeep 2) ∧
    2 ≤ countOperators "((1".toList + "((1".toList.count '(' + "((1".toList.countP Char.isLower ∧
    screen 7 "-8//2//3^2".toList = .ok () ∧
    ∀ k, evaluate 8 "-8//2//3^2".toList ≠ .error (.nestingTooDeep k) := by
  have refused : evaluate 2 "((1".toList = .error (.nestingTooDeep 2) := by decide +kernel
  have passed : screen 7 "-8//2//3^2".toList = .ok () := by decide +kernel
  have noLetter : "-8//2//3^2".toList.all (fun c => !c.isLower) = true := by decide
  obtain ⟨typed, read⟩ := evaluate_tooDeep_needs_typed
  refine ⟨refused, typed 2 _ refused, passed, read 7 8 _ passed (by decide) (fun c member => ?_)
    (by decide)⟩
  simpa using List.all_eq_true.1 noLetter c member

end Reckoner
