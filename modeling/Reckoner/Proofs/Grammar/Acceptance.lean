import Reckoner.Evaluation
import Reckoner.Proofs.Grammar.Completeness
import Reckoner.Proofs.Grammar.Soundness

/-!
# The reader accepts the grammar

Whole texts: a text is read exactly if the grammar writes a tree with it whose nesting is within the
limit, and then as that tree. A text that is written with more nesting is refused for its depth.
-/

namespace Reckoner

namespace Grammar

/-- A chain ends in front of something that is no space, or at the end of the text. -/
theorem skipSpaces_of_read_chain (limit room : Nat) (part : Part) (s : List Char) :
    match part with
    | .chain _ | .tail _ _ => ∀ t r, Reader.read limit room part s = .ok (t, r) → skipSpaces r = r
    | .factor | .call _ => True := by
  induction room, part, s using Reader.read_induct limit with
  | chain room level s _ tail =>
    intro t r h
    rw [Reader.read_chain, bind_eq_ok_iff] at h
    obtain ⟨_, readFirst, readTail⟩ := h
    exact tail _ _ readFirst _ _ readTail
  | done room level left s none =>
    intro t r h
    rw [Reader.read_tail_done none] at h
    cases h
    exact skipSpaces_skipSpaces s
  | more room op left s rest ahead _ tail =>
    intro t r h
    rw [Reader.read_tail_more ahead rfl, bind_eq_ok_iff] at h
    obtain ⟨_, readRight, readTail⟩ := h
    exact tail _ _ readRight _ _ readTail
  | _ => trivial

end Grammar

namespace Expression

open Grammar

theorem read_eq (limit : Nat) (s : List Char) :
    read limit s =
      match Reader.read limit limit (.chain .additive) s with
      | .error setback => .error setback.fault
      | .ok (t, []) => .ok t
      | .ok (_, c :: _) => .error (.trailingInput c) := by
  rw [read, Reader.read]
  cases Reader.chain limit limit .additive s with
  | error setback => rfl
  | ok reading =>
    obtain ⟨t, r, _⟩ := reading
    cases r <;> rfl

theorem read_eq_ok_iff {limit : Nat} {s : List Char} {t : Expression} :
    read limit s = .ok t ↔ Reader.read limit limit (.chain .additive) s = .ok (t, []) := by
  rw [read_eq]
  split <;> rename_i h <;> simp [h]

/-- A text is read exactly if it is written by the grammar, with no more nesting than the limit. -/
theorem read_eq_ok_iff_writes {limit : Nat} {s : List Char} {t : Expression} :
    read limit s = .ok t ↔ ∃ n, n ≤ limit ∧ Writes n s t := by
  rw [read_eq_ok_iff]
  constructor
  · intro h
    obtain ⟨n, r, le, derives, ends⟩ := derives_of_read limit limit _ s t [] h s rfl
    exact ⟨n, le, r, derives, blank_iff.2 ends⟩
  · rintro ⟨n, le, r, derives, blank⟩
    obtain ⟨r', h, ends⟩ := read_of_derives limit derives limit le s rfl
    have trimmed := skipSpaces_of_read_chain limit limit (.chain .additive) s t r' h
    rw [trimmed, blank_iff.1 blank] at ends
    rw [h, ends]

/-- A text whose derivation nests too deeply for the limit is refused for that. -/
theorem read_eq_tooDeep_of_writes {limit n : Nat} {s : List Char} {t : Expression}
    (h : Writes n s t) (lt : limit < n) : read limit s = .error (.nestingTooDeep limit) := by
  obtain ⟨r, derives, -⟩ := h
  obtain ⟨rest, deep⟩ := read_tooDeep_of_derives limit derives limit lt s rfl
  rw [read_eq, deep]

end Expression

theorem readValue_of_writes {limit n : Nat} {s : List Char} {t : Expression}
    (h : Grammar.Writes n s t) :
    readValue limit s = if n ≤ limit then .ok t.value else .error (.nestingTooDeep limit) := by
  unfold readValue
  split
  · rename_i le
    rw [Expression.read_eq_ok_iff_writes.2 ⟨n, le, h⟩, map_ok]
  · rename_i gt
    rw [Expression.read_eq_tooDeep_of_writes h (Nat.lt_of_not_le gt), map_error]

theorem readValue_of_writes_of_le {limit n : Nat} {s : List Char} {t : Expression}
    (h : Grammar.Writes n s t) (le : n ≤ limit) : readValue limit s = .ok t.value := by
  rw [readValue_of_writes h, if_pos le]

/-- Where an expression ends in front of something else, that is refused. -/
theorem readValue_of_derives_trailing {limit n : Nat} {s r rest : List Char} {t : Expression}
    {c : Char} (h : Grammar.Derives n (.chain .additive) s t r) (le : n ≤ limit)
    (ahead : skipSpaces r = c :: rest) : readValue limit s = .error (.trailingInput c) := by
  obtain ⟨r', read, ends⟩ := Grammar.read_of_derives limit h limit le s rfl
  have trimmed := Grammar.skipSpaces_of_read_chain limit limit (.chain .additive) s t r' read
  rw [trimmed, ahead] at ends
  rw [readValue, Expression.read_eq, read, ends, map_error]

theorem exists_writes_of_readValue {limit : Nat} {s : List Char} {v : Double}
    (h : readValue limit s = .ok v) :
    ∃ n t, n ≤ limit ∧ Grammar.Writes n s t ∧ t.value = v := by
  obtain ⟨t, read, same⟩ := map_eq_ok_iff.1 h
  obtain ⟨n, le, writes⟩ := Expression.read_eq_ok_iff_writes.1 read
  exact ⟨n, t, le, writes, same⟩

end Reckoner
