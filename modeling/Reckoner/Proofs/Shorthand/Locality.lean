import Reckoner.Proofs.Shorthand.Occurrence

/-!
# Locality of the expansion

A character that stands in no occurrence of a pattern divides every text for that pattern: what is
found in front of it is found there without the rest of the text, and the search begins anew behind
it (`Divides`). So the substitution works on both sides apart (`Divides.substitute_append`). A
character that divides texts for all four patterns divides them for the whole expansion.
-/

namespace Reckoner

/-- A word that begins a text, and does not hold the character at which the text is divided, begins
the first part. -/
theorem exists_rest_of_append_eq {c : Char} {u s word rest : List Char} (absent : c ∉ word)
    (h : u ++ c :: s = word ++ rest) : ∃ v, u = word ++ v ∧ rest = v ++ c :: s := by
  rcases List.append_eq_append_iff.1 h with ⟨x, same, behind⟩ | ⟨v, same, behind⟩
  · cases x with
    | nil => exact ⟨[], by simpa using same.symm, by simpa using behind.symm⟩
    | cons d x =>
      -- the word would go on over the character
      obtain ⟨rfl, -⟩ := List.cons.inj behind
      exact absurd (by simp [same]) absent
  · exact ⟨v, same, behind⟩

/-- No occurrence of the pattern goes beyond the character: in front of it the same is found with
the rest of the text as without. -/
structure Divides (c : Char) (pattern : Pattern) : Prop where
  finds_append : ∀ {u replacement v} s, pattern.Finds u replacement v →
    pattern.Finds (u ++ c :: s) replacement (v ++ c :: s)
  exists_of_finds : ∀ {u s replacement rest}, pattern.Finds (u ++ c :: s) replacement rest →
    ∃ v, pattern.Finds u replacement v ∧ rest = v ++ c :: s

namespace Divides

variable {c : Char} {pattern : Pattern}

theorem misses_append (h : Divides c pattern) {u : List Char} (s : List Char)
    (misses : pattern.Misses u) : pattern.Misses (u ++ c :: s) := by
  rw [Pattern.misses_iff] at misses ⊢
  intro replacement rest finds
  obtain ⟨v, inFront, -⟩ := h.exists_of_finds finds
  exact misses replacement v inFront

/-- No occurrence begins with the character. -/
theorem misses_cons (h : Divides c pattern) (s : List Char) : pattern.Misses (c :: s) :=
  h.misses_append s (Pattern.misses_nil pattern)

theorem substitute_cons (h : Divides c pattern) (s : List Char) :
    pattern.substitute (c :: s) = c :: pattern.substitute s :=
  Pattern.substitute_of_none (h.misses_cons s)

/-- The induction is on the search in front of the character, which does not notice what follows. -/
theorem substitute_append (h : Divides c pattern) (u s : List Char) :
    pattern.substitute (u ++ c :: s) = pattern.substitute u ++ c :: pattern.substitute s := by
  fun_induction Pattern.substitute pattern u with
  | case1 => exact h.substitute_cons s
  | case2 d tail found recognised ih =>
    have finds := h.finds_append s ⟨found, recognised, rfl, rfl⟩
    rw [Pattern.substitute_of_found finds, ih, List.append_assoc]
  | case3 d tail none ih =>
    have misses := h.misses_append s none
    calc pattern.substitute (d :: (tail ++ c :: s))
        = d :: pattern.substitute (tail ++ c :: s) := Pattern.substitute_of_none misses
      _ = d :: pattern.substitute tail ++ c :: pattern.substitute s := by rw [ih, List.cons_append]

/-- Behind the character, the search begins anew. -/
theorem substitute_append_concat (h : Divides c pattern) (u s : List Char) :
    pattern.substitute (u ++ [c] ++ s) = pattern.substitute (u ++ [c]) ++ pattern.substitute s := by
  rw [List.append_assoc, List.singleton_append, h.substitute_append u s, h.substitute_append u [],
    Pattern.substitute_nil, List.append_assoc, List.singleton_append]

end Divides

namespace Shorthand

/-! ## What divides a text -/

section Joined

variable {c : Char} {separator u v s rest : List Char} {a b : DigitRun}

theorem Joined.append (h : Joined separator a b u v) (noDigit : c.isDigit = false) (s : List Char) :
    Joined separator a b (u ++ c :: s) (v ++ c :: s) := by
  obtain ⟨rfl, stops⟩ := h
  exact ⟨by simp, stops.append (stops_cons_iff.2 noDigit)⟩

theorem Joined.exists_of_append (h : Joined separator a b (u ++ c :: s) rest)
    (noDigit : c.isDigit = false) (absent : c ∉ separator) :
    ∃ v, Joined separator a b u v ∧ rest = v ++ c :: s := by
  obtain ⟨shape, stops⟩ := h
  have absent : c ∉ a.digits ++ (separator ++ b.digits) := by
    simp [a.not_mem noDigit, b.not_mem noDigit, absent]
  have word : u ++ c :: s = a.digits ++ (separator ++ b.digits) ++ rest := by rw [shape]; simp
  obtain ⟨v, rfl, rfl⟩ := exists_rest_of_append_eq absent word
  exact ⟨v, ⟨by simp, stops.of_append⟩, rfl⟩

end Joined

variable {c : Char}

theorem divides_wholeDivision (noDigit : c.isDigit = false) (noSlash : c ≠ '/') :
    Divides c wholeDivision where
  finds_append s finds := by
    obtain ⟨a, b, joined, same⟩ := wholeDivision_finds_iff.1 finds
    exact wholeDivision_finds_iff.2 ⟨a, b, joined.append noDigit s, same⟩
  exists_of_finds finds := by
    obtain ⟨a, b, joined, same⟩ := wholeDivision_finds_iff.1 finds
    obtain ⟨v, inFront, behind⟩ := joined.exists_of_append noDigit (by simp [noSlash])
    exact ⟨v, wholeDivision_finds_iff.2 ⟨a, b, inFront, same⟩, behind⟩

theorem divides_doubleSlash (noSlash : c ≠ '/') : Divides c doubleSlash where
  finds_append s finds := by
    obtain ⟨rfl, same⟩ := doubleSlash_finds_iff.1 finds
    exact doubleSlash_finds_iff.2 ⟨rfl, same⟩
  exists_of_finds finds := by
    obtain ⟨shape, same⟩ := doubleSlash_finds_iff.1 finds
    have absent : c ∉ ['/', '/'] := by simp [noSlash]
    obtain ⟨v, rfl, behind⟩ := exists_rest_of_append_eq absent shape
    exact ⟨v, doubleSlash_finds_iff.2 ⟨rfl, same⟩, behind⟩

theorem dropParenthesis_append (h : c ≠ ')') (v s : List Char) :
    dropParenthesis (v ++ c :: s) = dropParenthesis v ++ c :: s := by
  cases v with
  | nil => simp [dropParenthesis, h]
  | cons d v => by_cases closes : d = ')' <;> simp [dropParenthesis, closes]

theorem divides_openFloor (noDigit : c.isDigit = false) (noSlash : c ≠ '/') (noClose : c ≠ ')')
    (absent : c ∉ floorBegins) : Divides c openFloor where
  finds_append s finds := by
    obtain ⟨a, b, inside, behind, rfl, joined, same, rfl⟩ := openFloor_finds_iff.1 finds
    exact openFloor_finds_iff.2 ⟨a, b, inside ++ c :: s, behind ++ c :: s, by simp,
      joined.append noDigit s, same, (dropParenthesis_append noClose behind s).symm⟩
  exists_of_finds finds := by
    obtain ⟨a, b, inside, behind, shape, joined, same, rfl⟩ := openFloor_finds_iff.1 finds
    obtain ⟨inside, rfl, rfl⟩ := exists_rest_of_append_eq absent shape
    obtain ⟨v, inFront, rfl⟩ := joined.exists_of_append noDigit (by simp [noSlash])
    exact ⟨dropParenthesis v, openFloor_finds_iff.2 ⟨a, b, inside, v, rfl, inFront, same, rfl⟩,
      dropParenthesis_append noClose v _⟩

theorem divides_digitPower (noDigit : c.isDigit = false) (noCaret : c ≠ '^') :
    Divides c digitPower where
  finds_append s finds := by
    obtain ⟨a, b, joined, same⟩ := digitPower_finds_iff.1 finds
    exact digitPower_finds_iff.2 ⟨a, b, joined.append noDigit s, same⟩
  exists_of_finds finds := by
    obtain ⟨a, b, joined, same⟩ := digitPower_finds_iff.1 finds
    obtain ⟨v, inFront, behind⟩ := joined.exists_of_append noDigit (by simp [noCaret])
    exact ⟨v, digitPower_finds_iff.2 ⟨a, b, inFront, same⟩, behind⟩

/-! ## The whole expansion -/

/-- A character that is no digit, and that neither shorthand nor the beginning of a floored quotient
holds, divides a text for the expansion: the operands on both sides of it do not disturb each
other. -/
theorem expand_divided (a b : List Char) (noDigit : c.isDigit = false)
    (plain : c ∉ "/^*().Mathflor".toList) :
    expand (a ++ [c] ++ b) = expand a ++ [c] ++ expand b := by
  have differs {d : Char} (reserved : d ∈ "/^*().Mathflor".toList) : c ≠ d :=
    (ne_of_mem_of_not_mem reserved plain).symm
  have noSlash : c ≠ '/' := differs (by decide)
  have absent : c ∉ floorBegins := by
    -- what else the beginning of a floored quotient holds are digits
    have letters :
        floorBegins.all (fun d => d.isDigit || "/^*().Mathflor".toList.contains d) = true := by
      decide
    intro member
    have known := List.all_eq_true.1 letters c member
    rw [noDigit, Bool.false_or, List.contains_iff_mem] at known
    exact plain known
  simp only [List.append_assoc, List.singleton_append]
  rw [expand, (divides_wholeDivision noDigit noSlash).substitute_append,
    (divides_doubleSlash noSlash).substitute_append,
    (divides_openFloor noDigit noSlash (differs (by decide)) absent).substitute_append,
    (divides_digitPower noDigit (differs (by decide))).substitute_append]
  rfl

/-- A quotient that is begun in front of a comma is not completed behind it. -/
theorem expand_divided_comma :
    (','.isDigit = false ∧ ',' ∉ "/^*().Mathflor".toList) ∧
    expand ("Math.floor(1.0*7/".toList ++ [','] ++ "2//3^4".toList) =
      expand "Math.floor(1.0*7/".toList ++ [','] ++ expand "2//3^4".toList ∧
    expand "Math.floor(1.0*7/".toList = "Math.floor(1.0*7/".toList ∧
    expand "2//3^4".toList = "Math.floor(1.0*2/3)^4".toList :=
  ⟨by decide, expand_divided _ _ (by decide) (by decide), by decide +kernel, by decide +kernel⟩

end Shorthand

end Reckoner
