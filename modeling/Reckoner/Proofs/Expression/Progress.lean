import Mathlib.Logic.Function.Iterate
import Reckoner.Proofs.Expression.Counter
import Reckoner.Proofs.Expression.Faults

/-!
# The reader gets on and comes to an end

The room that is left bounds how deeply factors nest, but with a large limit it bounds nothing, and
it is not what makes the recursion end. That is the text. A task enters others only where less of
the text is left, or at the same place for a lighter part (`Enters.size_lt`), so the step of the
reader need only be unfolded as often as the size of a task says (`CountingReader.agrees_iterate`).
The reader never goes back, not even where it fails (`suffix_of_refused`); a whole operand or chain
takes something that is no space; and what is entered from inside a factor begins behind the
beginning of that factor.
-/

namespace Reckoner.Reader

variable {limit room : Nat} {r s : List Char} {t : Expression}

/-! ## Never back -/

theorem suffix_of_read {part : Part} (h : read limit room part s = .ok (t, r)) : r <:+ s :=
  (reaches_of_read h).suffix

theorem suffix_of_refused {part : Part} {setback : Setback}
    (h : read limit room part s = .error setback) : setback.rest <:+ s := by
  have reaches := reaches_remaining limit room part s
  rw [h] at reaches
  exact reaches.suffix

/-! ## Always on -/

/-- Leading spaces make no difference to a factor that is read. -/
theorem read_factor_skipSpaces (h : read limit room .factor s = .ok (t, r)) :
    read limit room .factor (skipSpaces s) = .ok (t, r) := by
  cases room with
  | zero =>
    rw [read_factor_zero] at h
    contradiction
  | succ room =>
    rwa [read_factor_succ, Opening.ofText, skipSpaces_skipSpaces, ← Opening.ofText,
      ← read_factor_succ]

theorem read_chain_skipSpaces {level : Level} (h : read limit room (.chain level) s = .ok (t, r)) :
    read limit room (.chain level) (skipSpaces s) = .ok (t, r) := by
  rw [read_chain, bind_eq_ok_iff] at h
  obtain ⟨p, first, rest⟩ := h
  rw [read_chain, bind_eq_ok_iff]
  refine ⟨p, ?_, rest⟩
  cases level with
  | multiplicative => exact read_factor_skipSpaces first
  | additive =>
    -- an expression begins with a term, and that with a factor
    change read limit room (.chain .multiplicative) s = .ok p at first
    rw [read_chain, bind_eq_ok_iff] at first
    obtain ⟨q, factor, others⟩ := first
    change read limit room (.chain .multiplicative) (skipSpaces s) = .ok p
    rw [read_chain, bind_eq_ok_iff]
    exact ⟨q, read_factor_skipSpaces factor, others⟩

/-- What is taken is more than spaces if less is left than stands behind these. -/
theorem exists_taken (suffix : r <:+ s) (lt : r.length < (skipSpaces s).length) :
    ∃ taken, s = taken ++ r ∧ ∃ c ∈ taken, c ≠ ' ' := by
  obtain ⟨taken, rfl⟩ := suffix
  refine ⟨taken, rfl, ?_⟩
  by_contra none
  have spaces : taken = List.replicate taken.length ' ' := by
    refine List.eq_replicate_of_mem fun c member => ?_
    by_contra other
    exact none ⟨c, member, other⟩
  rw [spaces, skipSpaces_replicate_append] at lt
  exact absurd (length_skipSpaces_le r) (Nat.not_le_of_lt lt)

/-- A factor, a term or an expression is more than spaces. -/
theorem exists_taken_of_read {part : Part} (whole : part = .factor ∨ ∃ level, part = .chain level)
    (h : read limit room part s = .ok (t, r)) : ∃ taken, s = taken ++ r ∧ ∃ c ∈ taken, c ≠ ' ' := by
  refine exists_taken (suffix_of_read h) ?_
  rcases whole with rfl | ⟨level, rfl⟩
  · exact length_lt_of_read_factor (read_factor_skipSpaces h)
  · exact length_lt_of_read_chain (read_chain_skipSpaces h)

/-! ## Inside a factor -/

/-- A factor has taken what opens it before it enters anything. -/
theorem Enters.length_lt_of_factor {next : Task} (h : Enters limit ⟨room, .factor, s⟩ next) :
    next.text.length < s.length := by
  cases h with
  | signed opened | inside opened | call opened | unknown opened =>
    exact Opening.length_lt_of_behind? (congrArg Opening.behind? opened)

/-- Whatever is entered from inside a factor, directly or through others, begins further on. -/
theorem exists_taken_of_nested {next : Task}
    (h : Relation.TransGen (Enters limit) ⟨room, .factor, s⟩ next) :
    ∃ taken, taken ≠ [] ∧ s = taken ++ next.text := by
  obtain ⟨first, enters, others⟩ := Relation.TransGen.head'_iff.1 h
  have behind := (reaches_of_entered others).suffix
  obtain ⟨taken, same⟩ : next.text <:+ s := behind.trans enters.reaches.suffix
  refine ⟨taken, ?_, same.symm⟩
  rintro rfl
  have shorter := Nat.lt_of_le_of_lt behind.length_le enters.length_lt_of_factor
  rw [← same, List.nil_append] at shorter
  exact Nat.lt_irrefl _ shorter

/-! ## The end -/

/-- Unfolded more often than the size of a task, the step asks nothing of what it began with, and
answers as the reader does. -/
theorem CountingReader.agrees_iterate (base : CountingReader) {n : Nat} {task : Task}
    (h : task.size < n) :
    Agrees limit task.room ((step limit)^[n] base task.part task.text) task.part task.text := by
  induction n generalizing task with
  | zero => exact absurd h (Nat.not_lt_zero _)
  | succ n ih =>
    rw [Function.iterate_succ_apply']
    exact agrees_step fun next enters =>
      ih (Nat.lt_of_lt_of_le enters.size_lt (Nat.le_of_lt_succ h))

/-- Reading gets on and ends, whatever the limit. -/
structure AdvancesAndEnds (limit : Nat) : Prop where
  /-- The recursion is at most so deep as the length of the text says. -/
  unfolded : ∀ (base : CountingReader) part s count n, count ≤ limit → 3 * s.length + 2 < n →
    Steady count ((CountingReader.step limit)^[n] base part s)
      (read limit (limit - count) part s)
  /-- A step asks for nothing but the tasks that are entered. -/
  entered : ∀ (run : CountingReader) room part s,
    (∀ next, Enters limit ⟨room, part, s⟩ next →
      Agrees limit next.room (run next.part next.text) next.part next.text) →
    Agrees limit room (run.step limit part s) part s
  /-- A factor or a chain that is read takes something that is no space. -/
  taken : ∀ room part s t r, part = .factor ∨ (∃ level, part = .chain level) →
    read limit room part s = .ok (t, r) → ∃ taken, s = taken ++ r ∧ ∃ c ∈ taken, c ≠ ' '
  /-- What is refused leaves the reader no further back. -/
  refused : ∀ room part s setback,
    read limit room part s = .error setback → setback.rest <:+ s
  /-- A factor inside another begins behind it. -/
  nested : ∀ room s room' s',
    Relation.TransGen (Enters limit) ⟨room, .factor, s⟩ ⟨room', .factor, s'⟩ →
    ∃ taken, taken ≠ [] ∧ s = taken ++ s'
  /-- A text that has a value is read to its end. -/
  whole : ∀ s v, readValue limit s = .ok v →
    ∃ t, read limit limit (.chain .additive) s = .ok (t, []) ∧ t.value = v

/-- The reader gets on and comes to an end: the size of what is entered shrinks, and what is read or
left behind is told by the moves. -/
theorem reading_advances_and_ends (limit : Nat) : AdvancesAndEnds limit where
  unfolded base part s count n le lt := by
    have small := Nat.lt_of_le_of_lt (Task.size_le ⟨limit - count, part, s⟩) lt
    exact CountingReader.agrees_iterate base small count (Nat.add_sub_of_le le)
  entered run room part s := CountingReader.agrees_step
  taken room part s t r := exists_taken_of_read
  refused room part s setback := suffix_of_refused
  nested room s room' s' := exists_taken_of_nested
  whole s v h := by
    obtain ⟨t, found, same⟩ := map_eq_ok_iff.1 h
    exact ⟨t, Expression.read_eq_ok_iff.1 found, same⟩

/-- Two factors inside a factor, an open parenthesis, and far more room than there is text. -/
theorem reading_advances_and_ends_openGroup :
    Relation.TransGen (Enters 1000000) ⟨7, .factor, "- (2".toList⟩ ⟨5, .factor, "2".toList⟩ ∧
    (∃ taken, taken ≠ [] ∧ "- (2".toList = taken ++ "2".toList) ∧
    (∀ base, Steady 0 ((CountingReader.step 1000000)^[18] base .factor "- (2".toList)
      (read 1000000 1000000 .factor "- (2".toList)) ∧
    ∃ v, readValue 1000000 "- (2".toList = .ok v ∧
      ∃ t, read 1000000 1000000 (.chain .additive) "- (2".toList = .ok (t, []) ∧ t.value = v := by
  have ends := reading_advances_and_ends 1000000
  have operand : Enters 1000000 ⟨7, .factor, "- (2".toList⟩ ⟨6, .factor, " (2".toList⟩ :=
    .signed rfl
  have inside : Enters 1000000 ⟨6, .factor, " (2".toList⟩ ⟨5, .chain .additive, "2".toList⟩ :=
    .inside rfl
  have entered : Relation.TransGen (Enters 1000000) ⟨7, .factor, "- (2".toList⟩
      ⟨5, .factor, "2".toList⟩ :=
    (((Relation.TransGen.single operand).tail inside).tail .first).tail .first
  have answered : (readValue 1000000 "- (2".toList).toOption.isSome = true := by decide +kernel
  obtain ⟨v, value⟩ : ∃ v, readValue 1000000 "- (2".toList = .ok v := by
    cases read : readValue 1000000 "- (2".toList with
    | ok v => exact ⟨v, rfl⟩
    | error fault =>
      rw [read] at answered
      contradiction
  exact ⟨entered, ends.nested _ _ _ _ entered,
    fun base => ends.unfolded base .factor _ 0 18 (by decide) (by decide), v, value,
    ends.whole _ v value⟩

end Reckoner.Reader
