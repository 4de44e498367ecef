import Mathlib.Logic.Relation
import Reckoner.Proofs.Grammar.Layout

/-!
# The text behind a derivation

What a derivation takes of a text is decided by the text that it takes and by little of what stands
behind: which symbol is next there, and whether a number goes on. So the text behind can be
exchanged for any other that offers no more (`stretch_of_derives`), and behind a whole expression no
operator is next (`not_next_operator_of_derives`).
-/

namespace Reckoner

namespace Grammar

variable {n : Nat} {part : Part} {s r m : List Char} {t : Expression} {level : Level}

/-! ## Exchanging the text behind -/

/-- The text `m` can stand where `r` does: no symbol is next in it that is not next in `r`, and it
goes on with a number only if `r` does. -/
structure Replaces (m r : List Char) : Prop where
  next : ∀ c, c ≠ ' ' → Next c m → Next c r
  stops : Stops isDigitOrDot r → Stops isDigitOrDot m

/-- What stands behind a character that is no space makes no difference. -/
theorem replaces_cons_of_ne {c : Char} (noSpace : c ≠ ' ') (m r : List Char) :
    Replaces (c :: m) (c :: r) where
  next := by
    intro d noSpace'
    rw [next_iff noSpace', next_iff noSpace', skipSpaces_of_ne noSpace, skipSpaces_of_ne noSpace]
    intro found
    obtain ⟨rest, same⟩ := found
    exact ⟨r, by rw [(List.cons.inj same).1]⟩
  stops := by
    intro stops
    exact stops_cons_iff.2 (stops_cons_iff.1 stops)

/-- Spaces can stand where anything did. -/
theorem replaces_replicate (i : Nat) (r : List Char) : Replaces (List.replicate i ' ') r where
  next := by
    intro c noSpace found
    exact absurd found (not_next_replicate noSpace i)
  stops := by
    intro _
    cases i with
    | zero => exact stops_nil
    | succ i => exact stops_cons_iff.2 rfl

theorem Replaces.cons (h : Replaces m r) (c : Char) : Replaces (c :: m) (c :: r) := by
  by_cases space : c = ' '
  · subst space
    refine ⟨?_, fun _ => stops_cons_iff.2 rfl⟩
    intro d noSpace
    rw [next_iff noSpace, next_iff noSpace, skipSpaces_space, skipSpaces_space, ← next_iff noSpace,
      ← next_iff noSpace]
    exact h.next d noSpace
  · exact replaces_cons_of_ne space m r

/-- What stands in front is the same for both. -/
theorem Replaces.append (h : Replaces m r) (u : List Char) : Replaces (u ++ m) (u ++ r) := by
  induction u with
  | nil => exact h
  | cons c u ih => exact ih.cons c

theorem Replaces.not_next (h : Replaces m r) {c : Char} (noSpace : c ≠ ' ') (missing : ¬ Next c r) :
    ¬ Next c m := fun found => missing (h.next c noSpace found)

/-- A relation between a text and what is left of it rests on the stretch between `s` and `r` alone:
it holds there just as well in front of any text that can stand where `r` does. -/
def Stretch (P : List Char → List Char → Prop) (s r : List Char) : Prop :=
  ∃ u, s = u ++ r ∧ ∀ m, Replaces m r → P (u ++ m) m

namespace Stretch

variable {P Q : List Char → List Char → Prop} {a : List Char}

theorem mono (h : Stretch P s r) (le : ∀ x y, P x y → Q x y) : Stretch Q s r := by
  obtain ⟨u, shape, moved⟩ := h
  exact ⟨u, shape, fun m replaces => le _ _ (moved m replaces)⟩

/-- The later stretch stands unchanged in front of the rest, so it is moved together with that. -/
theorem comp (h : Stretch P s a) (h' : Stretch Q a r) : Stretch (Relation.Comp P Q) s r := by
  obtain ⟨v, rfl, later⟩ := h'
  obtain ⟨u, rfl, first⟩ := h
  refine ⟨u ++ v, (List.append_assoc u v r).symm, fun m replaces => ⟨v ++ m, ?_, later m replaces⟩⟩
  rw [List.append_assoc]
  exact first _ (replaces.append v)

/-- What is not next in front of a stretch is not next in front of it elsewhere. -/
theorem not_next (h : Stretch P s r) {c : Char} (noSpace : c ≠ ' ') (missing : ¬ Next c s) :
    Stretch (fun x y => ¬ Next c x ∧ P x y) s r := by
  obtain ⟨u, rfl, moved⟩ := h
  refine ⟨u, rfl, fun m replaces => ⟨?_, moved m replaces⟩⟩
  exact (replaces.append u).not_next noSpace missing

theorem suffix (h : Stretch P s r) : r <:+ s := by
  obtain ⟨u, shape, -⟩ := h
  exact ⟨u, shape.symm⟩

end Stretch

theorem stretch_of_token {word : List Char} (h : Token word s r) : Stretch (Token word) s r := by
  obtain ⟨i, shape⟩ := h
  exact ⟨List.replicate i ' ' ++ word, shape, fun m _ => ⟨i, rfl⟩⟩

theorem stretch_of_closes (h : Closes s r) : Stretch Closes s r := by
  rcases h with closed | ⟨missing, rfl⟩
  · exact (stretch_of_token closed).mono fun _ _ token => .inl token
  · exact ⟨[], rfl, fun m replaces => .inr ⟨replaces.not_next (by simp) missing, rfl⟩⟩

/-- A derivation rests on what it takes. The induction is on the derivation: each rule puts together
what it is made of, and looks ahead only for a single symbol or for the end of a number. -/
theorem stretch_of_derives (h : Derives n part s t r) : Stretch (Derives n part · t ·) s r := by
  induction h with
  | chain _ _ operand tail =>
    exact (operand.comp tail).mono fun _ _ ⟨_, first, rest⟩ => .chain first rest
  | done ends =>
    refine ⟨[], rfl, fun m replaces => .done fun op ofLevel => ?_⟩
    exact replaces.not_next op.symbol_ne_space (ends op ofLevel)
  | more ofLevel token _ _ operand tail =>
    have whole := (stretch_of_token token).comp (operand.comp tail)
    exact whole.mono fun _ _ ⟨_, token, _, right, rest⟩ => .more ofLevel token right rest
  | number token stops =>
    obtain ⟨u, rfl, taken⟩ := stretch_of_token token
    exact ⟨u, rfl, fun m replaces => .number (taken m replaces) (replaces.stops stops)⟩
  | sign token _ operand =>
    have whole := (stretch_of_token token).comp operand
    exact whole.mono fun _ _ ⟨_, token, operand⟩ => .sign token operand
  | group token _ closes inner =>
    have whole := (stretch_of_token token).comp (inner.comp (stretch_of_closes closes))
    exact whole.mono fun _ _ ⟨_, token, _, inner, closes⟩ => .group token inner closes
  | application token _ call =>
    have whole := (stretch_of_token token).comp call
    exact whole.mono fun _ _ ⟨_, token, call⟩ => .application token call
  | floorGroup token _ closes argument =>
    have whole := (stretch_of_token token).comp (argument.comp (stretch_of_closes closes))
    exact whole.mono fun _ _ ⟨_, token, _, argument, closes⟩ => .floorGroup token argument closes
  | floorFactor noGroup _ argument =>
    have whole := argument.not_next (by simp) noGroup
    exact whole.mono fun _ _ ⟨noGroup, argument⟩ => .floorFactor noGroup argument
  | powerPair token _ comma _ closes base exponent =>
    have second := (stretch_of_token comma).comp (exponent.comp (stretch_of_closes closes))
    have whole := (stretch_of_token token).comp (base.comp second)
    exact whole.mono fun _ _ ⟨_, token, _, base, _, comma, _, exponent, closes⟩ =>
      .powerPair token base comma exponent closes
  | powerGroup token _ noComma closes _ base exponent =>
    have second := ((stretch_of_closes closes).comp exponent).not_next (by simp) noComma
    have whole := (stretch_of_token token).comp (base.comp second)
    exact whole.mono fun _ _ ⟨_, token, _, base, noComma, _, closes, exponent⟩ =>
      .powerGroup token base noComma closes exponent
  | powerFactors noGroup _ _ base exponent =>
    have whole := (base.comp exponent).not_next (by simp) noGroup
    exact whole.mono fun _ _ ⟨noGroup, _, base, exponent⟩ => .powerFactors noGroup base exponent

theorem suffix_of_derives (h : Derives n part s t r) : r <:+ s := (stretch_of_derives h).suffix

/-! ## The end of a chain -/

/-- No operator is next that could stand at the place without parentheses. -/
def Ends (place : Place) (r : List Char) : Prop :=
  ∀ op, place.admits op = true → ¬ Next op.symbol r

/-- Where a part ends that is derived from `s`: a chain, in front of no operator of its own level
nor of the level of its last operand. The tail of a chain adds to the end of its operands only its
own level. -/
def EndsAt : Part → List Char → List Char → Prop
  | .chain level, _, r => Ends level.place r
  | .tail level _, s, r => Ends level.operandPlace s → Ends level.place r
  | .factor, _, _ | .call _, _, _ => True

theorem EndsAt.operand (h : EndsAt level.operand s r) : Ends level.operandPlace r := by
  cases level with
  | additive => exact h
  | multiplicative =>
    intro op admitted
    contradiction

theorem ends_of_operandPlace (inside : Ends level.operandPlace r)
    (ends : ∀ op : Operator, op.level = level → ¬ Next op.symbol r) : Ends level.place r := by
  intro op admitted
  cases kind : op.level with
  | multiplicative =>
    cases level with
    | multiplicative => exact ends op kind
    | additive => exact inside op (by simp [Level.operandPlace, Place.admits, kind])
  | additive =>
    cases level with
    | multiplicative => simp [Level.place, Place.admits, kind] at admitted
    | additive => exact ends op kind

theorem endsAt_of_derives (h : Derives n part s t r) : EndsAt part s r := by
  induction h with
  | chain _ _ operand tail => exact tail operand.operand
  | done ends =>
    intro inside
    exact ends_of_operandPlace inside ends
  | more _ _ _ _ operand tail =>
    intro _
    exact tail operand.operand
  | _ => trivial

theorem not_next_operator_of_derives (h : Derives n (.chain .additive) s t r) (op : Operator) :
    ¬ Next op.symbol r := endsAt_of_derives h op rfl

end Grammar

end Reckoner
