import Mathlib.Data.Nat.Find
import Reckoner.Proofs.Expression.Counter
import Reckoner.Proofs.Expression.Depth
import Reckoner.Proofs.Grammar.Acceptance

/-!
# The limit as a threshold

Every text needs some room, at least one and at most one more than it has characters. With a limit
below its need a text is refused for its depth, and from there on every limit gives the same answer.
-/

namespace Reckoner

open Reader

variable {limit limit' : Nat} {s : List Char}

/-- The factors of the text nest deeper than the limit. -/
def Exceeds (limit : Nat) (s : List Char) : Prop :=
  TooDeep (read limit limit (.chain .additive) s)

/-- Every text that is read begins with a factor. -/
theorem exceeds_zero (s : List Char) : Exceeds 0 s := by
  refine ⟨0, s, ?_⟩
  rw [read_chain, Level.operand, read_chain, Level.operand, read_factor_zero]
  rfl

theorem not_exceeds_of_length_lt (h : s.length < limit) : ¬ Exceeds limit s :=
  not_tooDeep_of_length_lt limit limit _ s h

theorem readValue_of_exceeds (h : Exceeds limit s) :
    readValue limit s = .error (.nestingTooDeep limit) := by
  obtain ⟨rest, refused⟩ := (read_widens limit limit _ s limit limit (Nat.le_refl limit)).eq_error h
  rw [readValue, Expression.read_eq, refused, map_error]

theorem readValue_of_not_exceeds (h : ¬ Exceeds limit s) (le : limit ≤ limit') :
    readValue limit' s = readValue limit s := by
  have same := (read_widens limit limit _ s limit' limit' le).eq_of_not_tooDeep h
  rw [readValue, readValue, Expression.read_eq, Expression.read_eq, same]

theorem exceeds_of_readValue {k : Nat} (h : readValue limit s = .error (.nestingTooDeep k)) :
    Exceeds limit s := by
  rw [readValue, Expression.read_eq] at h
  unfold Exceeds
  cases answer : Reader.read limit limit (.chain .additive) s with
  | ok p =>
    obtain ⟨t, _ | ⟨c, rest⟩⟩ := p <;> simp [answer] at h
  | error setback =>
    rw [answer, map_error] at h
    obtain ⟨fault, rest⟩ := setback
    exact ⟨k, rest, by rw [← Except.error.inj h]⟩

/-- The least limit that the text does not exceed. -/
theorem exists_need (s : List Char) :
    ∃ need, 1 ≤ need ∧ need ≤ s.length + 1 ∧ ¬ Exceeds need s ∧
      ∀ limit, limit < need → Exceeds limit s := by
  classical
  have enough : ¬ Exceeds (s.length + 1) s := not_exceeds_of_length_lt (Nat.lt_succ_self _)
  have some : ∃ need, ¬ Exceeds need s := ⟨_, enough⟩
  refine ⟨Nat.find some, ?_, Nat.find_min' some enough, Nat.find_spec some, ?_⟩
  · rw [Nat.one_le_iff_ne_zero]
    intro zero
    exact Nat.find_spec some (zero ▸ exceeds_zero s)
  · intro limit lt
    exact of_not_not (Nat.find_min some lt)

/-- The limit is a threshold. Below the need of a text the answer is the refusal, whatever else is
wrong with the text, and from there on the limit plays no part in it. So more room changes no answer
but a refusal. A reader that counts the open factors is the same reader, and finds its count
unchanged behind every part that it reads or fails to read. -/
theorem readValue_threshold :
    (∀ s, ∃ need, 1 ≤ need ∧ need ≤ s.length + 1 ∧ ∀ limit,
      (limit < need → readValue limit s = .error (.nestingTooDeep limit)) ∧
      (need ≤ limit → (∀ k, readValue limit s ≠ .error (.nestingTooDeep k)) ∧
        readValue limit s = readValue need s)) ∧
    (∀ s limit limit', limit ≤ limit' → readValue limit s ≠ .error (.nestingTooDeep limit) →
      readValue limit' s = readValue limit s) ∧
    ∀ limit, (∃ run : CountingReader, run.Counts limit) ∧
      ∀ run : CountingReader, run.Counts limit → ∀ part s count, count ≤ limit →
        Steady count (run part s) (read limit (limit - count) part s) := by
  refine ⟨?_, ?_, ?_⟩
  · intro s
    obtain ⟨need, pos, le, met, least⟩ := exists_need s
    refine ⟨need, pos, le, fun limit => ⟨?_, ?_⟩⟩
    · intro lt
      exact readValue_of_exceeds (least limit lt)
    · intro ge
      have same := readValue_of_not_exceeds met ge
      refine ⟨?_, same⟩
      intro k refused
      exact met (exceeds_of_readValue (same ▸ refused))
  · intro s limit limit' le answered
    refine readValue_of_not_exceeds (fun exceeds => ?_) le
    exact answered (readValue_of_exceeds exceeds)
  · intro limit
    exact ⟨CountingReader.exists_counts limit, fun run => CountingReader.counts_iff.1⟩

end Reckoner
