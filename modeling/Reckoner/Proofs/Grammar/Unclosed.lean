import Reckoner.Proofs.Grammar.Composition
import Reckoner.Proofs.Grammar.Remainder

/-!
# Parentheses that were never closed

Any number of closing parentheses may be missing, but without powers they can be missing only at the
end: where one is left out, the expression inside has stopped in front of no operator, and neither
an operator nor a closing parenthesis is next for any part around it (`ended_of_excess_lt`). So
closing parentheses that are put behind a text are taken from the innermost group outwards, and
regroup nothing, until none is left open (`takes_of_derives`); one more is refused.

With powers this fails: behind the base of a power, the exponent may follow where a closing
parenthesis is missing.
-/

namespace Reckoner

/-- So many closing parentheses. -/
def closers (j : Nat) : List Char := List.replicate j ')'

theorem halts_closers_succ (j : Nat) : Grammar.Halts (closers (j + 1)) :=
  ⟨')', closers j, rfl, .inl rfl⟩

namespace Grammar

variable {m n : Nat} {part : Part} {level : Level} {s a rest r : List Char} {t x left : Expression}

/-! ## Where a closing parenthesis is missing -/

/-- Neither a power is expected nor can one be met in the text. -/
structure PowerFree (part : Part) (s : List Char) : Prop where
  part : part ≠ .call .power
  text : ¬ Builtin.power.name <:+: s

namespace PowerFree

theorem of_suffix {part' : Part} (h : PowerFree part s) (suffix : r <:+ s)
    (other : part' ≠ .call .power) : PowerFree part' r where
  part := other
  text := by
    intro inside
    exact h.text (inside.trans suffix.isInfix)

theorem here {part' : Part} (h : PowerFree part s) (other : part' ≠ .call .power) :
    PowerFree part' s := h.of_suffix (List.suffix_refl s) other

theorem behind {word : List Char} {part' : Part} (h : PowerFree part s) (token : Token word s r)
    (other : part' ≠ .call .power) : PowerFree part' r :=
  h.of_suffix (stretch_of_token token).suffix other

theorem function {function : Builtin} (h : PowerFree part s) (token : Token function.name s r) :
    Part.call function ≠ .call .power := by
  obtain ⟨i, rfl⟩ := token
  rintro ⟨⟩
  exact h.text ⟨_, _, rfl⟩

end PowerFree

theorem operand_ne_power (level : Level) : level.operand ≠ .call .power := by
  cases level <;> exact Part.noConfusion

/-- No part goes on: neither an operator nor a closing parenthesis is next. -/
structure Ended (s : List Char) : Prop where
  operator : ∀ op : Operator, ¬ Next op.symbol s
  closing : ¬ Next ')' s

theorem Ended.tail (h : Ended s) (derives : Derives n (.tail level left) s t r) :
    n = 0 ∧ t = left ∧ r = s := by
  cases derives with
  | done _ => exact ⟨rfl, rfl, rfl⟩
  | more _ token _ _ => exact absurd ⟨_, token⟩ (h.operator _)

/-- A group that leaves more open than it closes has left its own closing parenthesis out. -/
theorem ended_of_group (opened : Token ['('] s a) (inner : Derives n (.chain .additive) a t rest)
    (inside : excess rest < excess a → Ended rest) (closes : Closes rest r)
    (unclosed : excess r < excess s) : Ended r := by
  have taken := excess_of_opening opened
  rcases closes with closed | ⟨missing, rfl⟩
  · have given := excess_of_closing closed
    exact absurd ⟨_, closed⟩ (inside (by omega)).closing
  · exact ⟨not_next_operator_of_derives inner, missing⟩

/-- Where the excess has dropped, nothing goes on: a chain behind such an operand is over. -/
theorem ended_of_operand (operand : Derives m level.operand a x rest)
    (tail : Derives n (.tail level left) rest t r) (inFirst : excess rest < excess a → Ended rest)
    (inTail : excess r < excess rest → Ended r) (unclosed : excess r < excess a) : Ended r := by
  have first := excess_le_of_derives operand
  by_cases early : excess rest < excess a
  · obtain ⟨-, -, rfl⟩ := (inFirst early).tail tail
    exact inFirst early
  · exact inTail (by omega)

/-- A part that leaves a parenthesis open ends where nothing goes on. The induction is on the
derivation: the parenthesis was left open by the last thing that was taken. -/
theorem ended_of_excess_lt (h : Derives n part s t r) (powerFree : PowerFree part s)
    (unclosed : excess r < excess s) : Ended r := by
  induction h with
  | @chain _ _ level _ _ _ _ _ derivesFirst derivesTail operand tail =>
    have free := powerFree.here (operand_ne_power level)
    exact ended_of_operand derivesFirst derivesTail (operand free)
      (tail (powerFree.of_suffix (suffix_of_derives derivesFirst) Part.noConfusion)) unclosed
  | done _ => exact absurd unclosed (Int.lt_irrefl _)
  | @more _ _ level _ _ _ _ _ _ _ _ _ token derivesRight derivesTail operand tail =>
    have taken := excess_of_neutral (excess_operator _) token
    rw [taken] at unclosed
    have free := powerFree.behind token (operand_ne_power level)
    exact ended_of_operand derivesRight derivesTail (operand free)
      (tail (free.of_suffix (suffix_of_derives derivesRight) Part.noConfusion)) unclosed
  | number token _ =>
    have taken := excess_of_neutral (excess_run _) token
    omega
  | sign token _ operand =>
    have taken := excess_of_neutral (excess_sign _) token
    exact operand (powerFree.behind token Part.noConfusion) (by omega)
  | group token derivesInner closes inner =>
    exact ended_of_group token derivesInner (inner (powerFree.behind token Part.noConfusion)) closes
      unclosed
  | application token _ call =>
    have taken := excess_of_neutral (excess_name _) token
    exact call (powerFree.behind token (powerFree.function token)) (by omega)
  | floorGroup token derivesArgument closes argument =>
    exact ended_of_group token derivesArgument (argument (powerFree.behind token Part.noConfusion))
      closes unclosed
  | floorFactor _ _ argument =>
    exact argument (powerFree.here Part.noConfusion) unclosed
  | powerPair | powerGroup | powerFactors => exact absurd rfl powerFree.part

/-! ## Putting closing parentheses behind -/

/-- The part is derived also with `j` closing parentheses behind the text. It takes one for each
parenthesis that the text leaves open, and leaves the others. -/
def Takes (j n : Nat) (part : Part) (s : List Char) (t : Expression) : Prop :=
  ∃ i, Derives n part (s ++ closers j) t (List.replicate i ' ' ++ closers (j - (excess s).toNat))

theorem excess_blank (h : Blank r) : excess r = 0 := by
  obtain ⟨i, rfl⟩ := h
  exact excess_replicate i

theorem not_next_closers {c : Char} (noSpace : c ≠ ' ') (other : c ≠ ')') (i k : Nat) :
    ¬ Next c (List.replicate i ' ' ++ closers k) := by
  cases k with
  | zero =>
    rw [closers, List.replicate_zero, List.append_nil]
    exact not_next_replicate noSpace i
  | succ k => exact not_next_replicate_append noSpace (by simp) other.symm

/-- The first of the closing parentheses closes, if there is one. -/
theorem exists_closes_closers (i k : Nat) :
    ∃ i', Closes (List.replicate i ' ' ++ closers k)
      (List.replicate i' ' ' ++ closers (k - 1)) := by
  cases k with
  | zero =>
    refine ⟨i, .inr ⟨?_, rfl⟩⟩
    rw [closers, List.replicate_zero, List.append_nil]
    exact not_next_replicate (by simp) i
  | succ k => exact ⟨0, .inl ⟨i, by simp [closers, List.replicate_succ]⟩⟩

section Rules

variable {j : Nat} (halts : Halts (closers j)) (blank : Blank r)
include halts blank

theorem Derives.takes (h : Derives n part s t r) (balanced : excess s ≤ excess r) :
    Takes j n part s t := by
  obtain ⟨i, rfl⟩ := blank
  refine ⟨i, ?_⟩
  rw [excess_replicate] at balanced
  rw [Int.toNat_of_nonpos balanced]
  exact h.append halts (by rwa [excess_replicate])

/-- Behind an operand that leaves a parenthesis open there is nothing, so the operand takes what is
put behind; otherwise it ends where it did, and the chain goes on to take it. -/
theorem takes_of_operand (operand : Derives m level.operand a x rest)
    (tail : Derives n (.tail level left) rest t r) (ended : excess rest < excess a → Ended rest)
    (inFirst : Blank rest → Takes j m level.operand a x)
    (inTail : Takes j n (.tail level left) rest t) :
    ∃ rest' i, Derives m level.operand (a ++ closers j) x rest' ∧
      Derives n (.tail level left) rest' t
        (List.replicate i ' ' ++ closers (j - (excess a).toNat)) := by
  by_cases unclosed : excess rest < excess a
  · obtain ⟨rfl, rfl, rfl⟩ := (ended unclosed).tail tail
    obtain ⟨i, first⟩ := inFirst blank
    refine ⟨_, i, first, .done fun op _ => ?_⟩
    exact not_next_closers op.symbol_ne_space (by cases op <;> simp [Operator.symbol]) i _
  · have le := excess_le_of_derives operand
    obtain ⟨i, behind⟩ := inTail
    rw [show excess rest = excess a by omega] at behind
    exact ⟨rest ++ closers j, i, operand.append halts (by omega), behind⟩

/-- A group that was closed stays as it is; one that was not takes a closing parenthesis behind
those that its inside takes. -/
theorem takes_of_group (opened : Token ['('] s a) (inner : Derives n (.chain .additive) a t rest)
    (closes : Closes rest r) (ended : excess rest < excess a → Ended rest)
    (inside : Blank rest → Takes j n (.chain .additive) a t) :
    ∃ rest' i, Derives n (.chain .additive) (a ++ closers j) t rest' ∧
      Closes rest' (List.replicate i ' ' ++ closers (j - (excess s).toNat)) := by
  have taken := excess_of_opening opened
  have le := excess_le_of_derives inner
  have none := excess_blank blank
  rcases closes with closed | ⟨-, rfl⟩
  · have given := excess_of_closing closed
    have balanced : excess a ≤ excess rest := by
      by_contra unclosed
      exact (ended (by omega)).closing ⟨_, closed⟩
    obtain ⟨i, rfl⟩ := blank
    refine ⟨rest ++ closers j, i, inner.append halts balanced, ?_⟩
    rw [show (excess s).toNat = 0 by omega]
    exact .inl (closed.append _)
  · obtain ⟨i, derives⟩ := inside blank
    obtain ⟨i', closes⟩ := exists_closes_closers i (j - (excess a).toNat)
    rw [show j - (excess a).toNat - 1 = j - (excess s).toNat by omega] at closes
    exact ⟨_, i', derives, closes⟩

/-- A part that is the last of the text takes the closing parentheses that are put behind. The
induction is on the derivation: in each part the last thing that is taken takes them. -/
theorem takes_of_derives (h : Derives n part s t r) (powerFree : PowerFree part s) :
    Takes j n part s t := by
  induction h with
  | @chain _ _ level _ _ _ _ _ derivesFirst derivesTail operand tail =>
    have free := powerFree.here (operand_ne_power level)
    have last := tail blank (free.of_suffix (suffix_of_derives derivesFirst) Part.noConfusion)
    obtain ⟨rest', i, first, behind⟩ := takes_of_operand halts blank derivesFirst derivesTail
      (ended_of_excess_lt derivesFirst free) (operand · free) last
    exact ⟨i, .chain first behind⟩
  | done ends => exact (Derives.done ends).takes halts blank (Int.le_refl _)
  | @more _ _ level _ _ _ _ _ _ _ _ ofLevel token derivesRight derivesTail operand tail =>
    have taken := excess_of_neutral (excess_operator _) token
    have free := powerFree.behind token (operand_ne_power level)
    have last := tail blank (free.of_suffix (suffix_of_derives derivesRight) Part.noConfusion)
    obtain ⟨rest', i, right, behind⟩ := takes_of_operand halts blank derivesRight derivesTail
      (ended_of_excess_lt derivesRight free) (operand · free) last
    rw [← taken] at behind
    exact ⟨i, .more ofLevel (token.append _) right behind⟩
  | number token stops =>
    have taken := excess_of_neutral (excess_run _) token
    exact (Derives.number token stops).takes halts blank (by omega)
  | sign token _ operand =>
    have taken := excess_of_neutral (excess_sign _) token
    obtain ⟨i, derives⟩ := operand blank (powerFree.behind token Part.noConfusion)
    rw [← taken] at derives
    exact ⟨i, .sign (token.append _) derives⟩
  | group token derivesInner closes inner =>
    have free : PowerFree (.chain .additive) _ := powerFree.behind token Part.noConfusion
    obtain ⟨rest', i, inside, closed⟩ := takes_of_group halts blank token derivesInner closes
      (ended_of_excess_lt derivesInner free) (inner · free)
    exact ⟨i, .group (token.append _) inside closed⟩
  | application token _ call =>
    have taken := excess_of_neutral (excess_name _) token
    obtain ⟨i, derives⟩ := call blank (powerFree.behind token (powerFree.function token))
    rw [← taken] at derives
    exact ⟨i, .application (token.append _) derives⟩
  | floorGroup token derivesArgument closes argument =>
    have free : PowerFree (.chain .additive) _ := powerFree.behind token Part.noConfusion
    obtain ⟨rest', i, inside, closed⟩ := takes_of_group halts blank token derivesArgument closes
      (ended_of_excess_lt derivesArgument free) (argument · free)
    exact ⟨i, .floorGroup (token.append _) inside closed⟩
  | floorFactor noGroup _ argument =>
    obtain ⟨i, derives⟩ := argument blank (powerFree.here Part.noConfusion)
    exact ⟨i, .floorFactor (not_next_append noGroup (by simp) halts (by simp)) derives⟩
  | powerPair | powerGroup | powerFactors => exact absurd rfl powerFree.part

end Rules

end Grammar

/-- Missing closing parentheses are exactly the ones that may be added behind a text without
powers. -/
theorem readValue_append_closers {limit : Nat} {s : List Char} {v : Double}
    (noPower : ¬ Builtin.power.name <:+: s) (h : readValue limit s = .ok v) :
    s.count ')' ≤ s.count '(' ∧
    ∀ j, readValue limit (s ++ List.replicate j ')') =
      if j ≤ s.count '(' - s.count ')' then .ok v else .error (.trailingInput ')') := by
  obtain ⟨n, t, le, ⟨r, derives, blank⟩, rfl⟩ := exists_writes_of_readValue h
  have balance := Grammar.excess_le_of_derives derives
  rw [Grammar.excess_blank blank, excess] at balance
  have missing : (excess s).toNat = s.count '(' - s.count ')' := by
    rw [excess]
    omega
  refine ⟨by omega, fun j => ?_⟩
  cases j with
  | zero => simpa using h
  | succ j =>
    obtain ⟨i, taken⟩ :=
      Grammar.takes_of_derives (halts_closers_succ j) blank derives ⟨Part.noConfusion, noPower⟩
    rw [missing] at taken
    split
    · rename_i few
      rw [Nat.sub_eq_zero_of_le few] at taken
      exact readValue_of_writes_of_le ⟨_, taken, i, List.append_nil _⟩ le
    · rename_i many
      have left : j + 1 - (s.count '(' - s.count ')') ≠ 0 := by omega
      obtain ⟨k, more⟩ := Nat.exists_eq_succ_of_ne_zero left
      rw [more] at taken
      exact readValue_of_derives_trailing taken le (skipSpaces_replicate_append i _)

/-- Two parentheses are open behind the product, and a third closing one is refused. -/
theorem readValue_append_closers_product :
    ¬ Builtin.power.name <:+: "2*(3+(4".toList ∧
    readValue 3 "2*(3+(4".toList = .ok (.ofFraction 14 1) ∧
    ∀ j, readValue 3 ("2*(3+(4".toList ++ List.replicate j ')') =
      if j ≤ 2 then .ok (.ofFraction 14 1) else .error (.trailingInput ')') := by
  have noPower : ¬ Builtin.power.name <:+: "2*(3+(4".toList := by decide +kernel
  have value : readValue 3 "2*(3+(4".toList = .ok (.ofFraction 14 1) := by decide +kernel
  exact ⟨noPower, value, (readValue_append_closers noPower value).2⟩

end Reckoner
