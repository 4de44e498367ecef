import Reckoner.Proofs.Shorthand.Respelling

/-!
# Occurrences of the shorthand patterns

`Pattern.Finds` says what a pattern recognises at the front of a text, and the `_finds_iff` lemmas
spell that out for the four patterns of the shorthand.

The second half reads a substitution backwards. All that is ever inserted are calls, which begin
with a capital M and hold no other (`InsertsCalls`). So a stretch of the output without that letter
has been kept, and stood in the text as it is (`InsertsCalls.kept`).
-/

namespace Reckoner

/-- At the front of the text the pattern recognises something that `replacement` is written for,
with `rest` behind it. -/
def Pattern.Finds (pattern : Pattern) (s replacement rest : List Char) : Prop :=
  ∃ found, pattern s = some found ∧ found.replacement = replacement ∧ found.rest = rest

/-- The pattern recognises nothing at the front of the text. -/
def Pattern.Misses (pattern : Pattern) (s : List Char) : Prop := pattern s = none

theorem Pattern.Misses.not_finds {pattern : Pattern} {s replacement rest : List Char}
    (h : pattern.Misses s) : ¬ pattern.Finds s replacement rest := by
  rintro ⟨found, recognised, -, -⟩
  rw [show pattern s = none from h] at recognised
  contradiction

theorem Pattern.misses_iff {pattern : Pattern} {s : List Char} :
    pattern.Misses s ↔ ∀ replacement rest, ¬ pattern.Finds s replacement rest := by
  constructor
  · intro misses replacement rest
    exact misses.not_finds
  · intro none
    refine Option.eq_none_iff_forall_ne_some.2 fun found recognised => ?_
    exact none _ _ ⟨found, recognised, rfl, rfl⟩

theorem Pattern.misses_nil (pattern : Pattern) : pattern.Misses [] := by
  refine Option.eq_none_iff_forall_ne_some.2 fun found _ => ?_
  exact absurd found.length_lt (Nat.not_lt_zero _)

namespace Shorthand

/-! ## What the patterns recognise -/

theorem behind?_eq_some_iff {word s rest : List Char} :
    behind? word s = some rest ↔ s = word ++ rest := by
  constructor
  · intro h
    unfold behind? at h
    split at h
    · rename_i begins
      obtain ⟨behind, rfl⟩ := begins
      rw [List.drop_left, Option.some.injEq] at h
      rw [h]
    · contradiction
  · rintro rfl
    exact behind?_append word rest

/-- Two runs of digits with the separator between them, and no further digit behind. -/
def Joined (separator : List Char) (a b : DigitRun) (s rest : List Char) : Prop :=
  s = a.digits ++ (separator ++ (b.digits ++ rest)) ∧ Stops Char.isDigit rest

theorem joined_of_operands? {separator s : List Char} {o : Operands s}
    (h : operands? separator s = some o) :
    ∃ a b : DigitRun, o.left = a.digits ∧ o.right = b.digits ∧ Joined separator a b s o.rest := by
  unfold operands? at h
  split at h
  · contradiction
  · rename_i a as left
    split at h
    · contradiction
    · rename_i behind found
      split at h
      · contradiction
      · rename_i b bs right
        cases h
        have digitsLeft : (a :: as).all Char.isDigit = true := by rw [← left, List.all_takeWhile]
        have digitsRight : (b :: bs).all Char.isDigit = true := by rw [← right, List.all_takeWhile]
        refine ⟨⟨a :: as, List.cons_ne_nil _ _, digitsLeft⟩,
          ⟨b :: bs, List.cons_ne_nil _ _, digitsRight⟩, rfl, rfl, ?_, stops_dropWhile behind⟩
        calc s = s.takeWhile Char.isDigit ++ s.dropWhile Char.isDigit :=
              List.takeWhile_append_dropWhile.symm
          _ = a :: as ++ (separator ++ behind) := by rw [left, behind?_eq_some_iff.1 found]
          _ = a :: as ++ (separator ++ (b :: bs ++ behind.dropWhile Char.isDigit)) := by
              rw [← right, List.takeWhile_append_dropWhile]

theorem exists_operands?_of_joined {separator s rest : List Char} {a b : DigitRun}
    (separates : ∀ v, Stops Char.isDigit (separator ++ v)) (h : Joined separator a b s rest) :
    ∃ o, operands? separator s = some o ∧ o.left = a.digits ∧ o.right = b.digits ∧
      o.rest = rest := by
  obtain ⟨rfl, stops⟩ := h
  exact operands?_eq_some separator rest a.ne_nil a.all_isDigit separates b.ne_nil b.all_isDigit
    stops

theorem wholeDivision_finds_iff {s replacement rest : List Char} :
    wholeDivision.Finds s replacement rest ↔
      ∃ a b, Joined ['/', '/'] a b s rest ∧ replacement = flooredQuotient a.digits b.digits := by
  constructor
  · rintro ⟨found, recognised, rfl, rfl⟩
    obtain ⟨o, operands, rfl⟩ := Option.map_eq_some_iff.1 recognised
    obtain ⟨a, b, left, right, joined⟩ := joined_of_operands? operands
    exact ⟨a, b, joined, by rw [left, right]⟩
  · rintro ⟨a, b, joined, rfl⟩
    obtain ⟨o, operands, left, right, behind⟩ :=
      exists_operands?_of_joined (fun _ => stops_cons_iff.2 rfl) joined
    exact ⟨_, congrArg (Option.map _) operands, congrArg₂ flooredQuotient left right, behind⟩

theorem doubleSlash_finds_iff {s replacement rest : List Char} :
    doubleSlash.Finds s replacement rest ↔ s = '/' :: '/' :: rest ∧ replacement = floorBegins := by
  constructor
  · rintro ⟨found, recognised, rfl, rfl⟩
    unfold doubleSlash at recognised
    split at recognised
    · contradiction
    · rename_i behind
      cases recognised
      exact ⟨behind?_eq_some_iff.1 behind, rfl⟩
  · rintro ⟨rfl, rfl⟩
    exact ⟨_, rfl, rfl, rfl⟩

theorem openFloor_finds_iff {s replacement rest : List Char} :
    openFloor.Finds s replacement rest ↔
      ∃ a b inside behind, s = floorBegins ++ inside ∧ Joined ['/'] a b inside behind ∧
        replacement = flooredQuotient a.digits b.digits ∧ rest = dropParenthesis behind := by
  constructor
  · rintro ⟨found, recognised, rfl, rfl⟩
    unfold openFloor at recognised
    split at recognised
    · contradiction
    · rename_i inside begins
      obtain ⟨o, operands, rfl⟩ := Option.map_eq_some_iff.1 recognised
      obtain ⟨a, b, left, right, joined⟩ := joined_of_operands? operands
      exact ⟨a, b, inside, o.rest, behind?_eq_some_iff.1 begins, joined, by rw [left, right], rfl⟩
  · rintro ⟨a, b, inside, behind, rfl, joined, rfl, rfl⟩
    obtain ⟨o, operands, left, right, rfl⟩ :=
      exists_operands?_of_joined (fun _ => stops_cons_iff.2 rfl) joined
    unfold Pattern.Finds openFloor
    split
    · rename_i absent
      simp at absent
    · rename_i inside' begins
      rw [behind?_append, Option.some.injEq] at begins
      subst begins
      exact ⟨_, congrArg (Option.map _) operands, congrArg₂ flooredQuotient left right, rfl⟩

theorem digitPower_finds_iff {s replacement rest : List Char} :
    digitPower.Finds s replacement rest ↔
      ∃ a b, Joined ['^'] a b s rest ∧ replacement = powerCall a.digits b.digits := by
  constructor
  · rintro ⟨found, recognised, rfl, rfl⟩
    obtain ⟨o, operands, rfl⟩ := Option.map_eq_some_iff.1 recognised
    obtain ⟨a, b, left, right, joined⟩ := joined_of_operands? operands
    exact ⟨a, b, joined, by rw [left, right]⟩
  · rintro ⟨a, b, joined, rfl⟩
    obtain ⟨o, operands, left, right, behind⟩ :=
      exists_operands?_of_joined (fun _ => stops_cons_iff.2 rfl) joined
    exact ⟨_, congrArg (Option.map _) operands, congrArg₂ powerCall left right, behind⟩

end Shorthand

/-! ## The output of a substitution -/

namespace Pattern

/-- A stretch of text in which nothing is found is kept. -/
theorem substitute_append_of_misses {pattern : Pattern} {u s : List Char}
    (misses : ∀ x, x ≠ [] → x <:+ u → pattern.Misses (x ++ s)) :
    pattern.substitute (u ++ s) = u ++ pattern.substitute s := by
  induction u with
  | nil => rfl
  | cons c u ih =>
    have none : pattern.Misses (c :: (u ++ s)) := misses (c :: u) (by simp) (List.suffix_refl _)
    have inside : ∀ x, x ≠ [] → x <:+ u → pattern.Misses (x ++ s) := fun x nonempty suffix =>
      misses x nonempty (suffix.trans (List.suffix_cons c u))
    rw [List.cons_append, substitute_of_none none, ih inside, List.cons_append]

/-- A text of which every occurrence is replaced by itself is left as it is. -/
theorem substitute_eq_self {pattern : Pattern} {s : List Char}
    (h : ∀ v, v <:+ s → ∀ replacement rest, pattern.Finds v replacement rest →
      v = replacement ++ rest) : pattern.substitute s = s := by
  fun_induction Pattern.substitute pattern s with
  | case1 => rfl
  | case2 c tail found recognised ih =>
    have same := h _ (List.suffix_refl _) _ _ ⟨found, recognised, rfl, rfl⟩
    have behind : found.rest <:+ c :: tail := ⟨found.replacement, same.symm⟩
    rw [ih fun v suffix => h v (suffix.trans behind), ← same]
  | case3 c tail none ih =>
    rw [ih fun v suffix => h v (suffix.trans (List.suffix_cons c tail))]

end Pattern

/-- A pattern for which calls are written: what is inserted begins with a capital M and holds no
other. What stands behind an occurrence is an end of the text. -/
structure InsertsCalls (pattern : Pattern) : Prop where
  suffix : ∀ {s replacement rest}, pattern.Finds s replacement rest → rest <:+ s
  call : ∀ {s replacement rest}, pattern.Finds s replacement rest →
    ∃ word, replacement = 'M' :: word ∧ 'M' ∉ word

namespace InsertsCalls

variable {pattern : Pattern}

/-- At the beginning of an output stands a character that is kept, or a call, unless there is no
text. -/
theorem substitute_cases (calls : InsertsCalls pattern) (s : List Char) :
    s = [] ∨
    (∃ c rest, s = c :: rest ∧ pattern.Misses s ∧
      pattern.substitute s = c :: pattern.substitute rest) ∨
    ∃ word rest, pattern.Finds s ('M' :: word) rest ∧
      pattern.substitute s = 'M' :: (word ++ pattern.substitute rest) := by
  cases s with
  | nil => exact .inl rfl
  | cons c rest =>
    cases recognised : pattern (c :: rest) with
    | none => exact .inr (.inl ⟨c, rest, rfl, recognised, Pattern.substitute_of_none recognised⟩)
    | some found =>
      have finds : pattern.Finds (c :: rest) found.replacement found.rest :=
        ⟨found, recognised, rfl, rfl⟩
      obtain ⟨word, call, -⟩ := calls.call finds
      rw [call] at finds
      refine .inr (.inr ⟨word, found.rest, finds, ?_⟩)
      rw [Pattern.substitute_of_some recognised, call, List.cons_append]

/-- A capital M stays in its place: it is kept, or a call is written for what it begins. -/
theorem exists_substitute_capital (calls : InsertsCalls pattern) (s : List Char) :
    ∃ t, pattern.substitute ('M' :: s) = 'M' :: t := by
  rcases calls.substitute_cases ('M' :: s) with none | ⟨c, rest, same, -, output⟩ |
    ⟨word, rest, -, output⟩
  · contradiction
  · cases same
    exact ⟨_, output⟩
  · exact ⟨_, output⟩

/-- A stretch of the output without a capital M has been kept: it stood in the text as it is, and no
occurrence begins in it. -/
theorem kept (calls : InsertsCalls pattern) {w out s : List Char} (absent : 'M' ∉ w)
    (h : pattern.substitute s = w ++ out) :
    ∃ rest, s = w ++ rest ∧ pattern.substitute rest = out ∧
      ∀ x, x ≠ [] → x <:+ w → pattern.Misses (x ++ rest) := by
  induction w generalizing s with
  | nil =>
    refine ⟨s, rfl, h, ?_⟩
    intro x nonempty suffix
    exact absurd (List.suffix_nil.1 suffix) nonempty
  | cons c w ih =>
    rw [List.cons_append] at h
    rcases calls.substitute_cases s with rfl | ⟨d, rest, rfl, none, output⟩ |
      ⟨word, rest, -, output⟩
    · rw [Pattern.substitute_nil] at h
      contradiction
    · rw [h, List.cons.injEq] at output
      obtain ⟨rfl, behind⟩ := output
      obtain ⟨rest, rfl, same, clear⟩ := ih (List.not_mem_of_not_mem_cons absent) behind.symm
      refine ⟨rest, rfl, same, ?_⟩
      intro x nonempty suffix
      rcases List.suffix_cons_iff.1 suffix with rfl | inside
      · exact none
      · exact clear x nonempty inside
    · rw [h, List.cons.injEq] at output
      exact absurd output.1.symm (List.ne_of_not_mem_cons absent)

/-- What stands from some place on in an output: the output for an end of the text, or else the last
part of a call with such an output behind it. -/
theorem of_suffix (calls : InsertsCalls pattern) {s v : List Char}
    (h : v <:+ pattern.substitute s) :
    (∃ t, t <:+ s ∧ v = pattern.substitute t) ∨
    ∃ t word rest x, pattern.Finds t ('M' :: word) rest ∧ x ≠ [] ∧ x <:+ word ∧
      v = x ++ pattern.substitute rest := by
  fun_induction Pattern.substitute pattern s with
  | case1 => exact .inl ⟨[], List.suffix_refl _, by simpa using h⟩
  | case2 c tail found recognised ih =>
    have finds : pattern.Finds (c :: tail) found.replacement found.rest :=
      ⟨found, recognised, rfl, rfl⟩
    obtain ⟨word, call, -⟩ := calls.call finds
    rw [call] at finds
    have ends : found.rest <:+ c :: tail := calls.suffix finds
    rw [call, List.cons_append] at h
    rcases List.suffix_cons_iff.1 h with whole | inside
    · refine .inl ⟨c :: tail, List.suffix_refl _, ?_⟩
      rw [whole, Pattern.substitute_of_some recognised, call, List.cons_append]
    · rcases List.suffix_or_suffix_of_suffix inside (List.suffix_append word _) with
        behind | ⟨x, rfl⟩
      · rcases ih behind with ⟨t, le, same⟩ | inCall
        · exact .inl ⟨t, le.trans ends, same⟩
        · exact .inr inCall
      · have part : x <:+ word := List.suffix_append_self_iff.1 inside
        by_cases none : x = []
        · exact .inl ⟨found.rest, ends, by rw [none, List.nil_append]⟩
        · exact .inr ⟨c :: tail, word, found.rest, x, finds, none, part, rfl⟩
  | case3 c tail none ih =>
    rcases List.suffix_cons_iff.1 h with whole | inside
    · exact .inl ⟨c :: tail, List.suffix_refl _, whole.trans (Pattern.substitute_of_none none).symm⟩
    · rcases ih inside with ⟨t, le, same⟩ | inCall
      · exact .inl ⟨t, le.trans (List.suffix_cons c tail), same⟩
      · exact .inr inCall

/-- A capital M in the output begins a call that has been inserted, or else it has been kept
together with what follows it up to the next one. -/
theorem of_capital (calls : InsertsCalls pattern) {s u w out : List Char} (absent : 'M' ∉ w)
    (h : pattern.substitute s = u ++ 'M' :: (w ++ out)) :
    (∃ t word rest, pattern.Finds t ('M' :: word) rest ∧
      w ++ out = word ++ pattern.substitute rest) ∨
    ∃ u rest, s = u ++ 'M' :: (w ++ rest) ∧ pattern.substitute rest = out ∧
      ∀ x, x ≠ [] → x <:+ 'M' :: w → pattern.Misses (x ++ rest) := by
  rcases calls.of_suffix ⟨u, h.symm⟩ with
    ⟨t, ⟨u, rfl⟩, same⟩ | ⟨t, word, rest, x, finds, nonempty, part, same⟩
  · rcases calls.substitute_cases t with rfl | ⟨c, rest, rfl, none, first⟩ |
      ⟨word, rest, finds, first⟩
    · rw [Pattern.substitute_nil] at same
      contradiction
    · obtain ⟨rfl, behind⟩ := List.cons.inj (same.trans first)
      obtain ⟨rest, rfl, output, clear⟩ := calls.kept absent behind.symm
      refine .inr ⟨u, rest, rfl, output, ?_⟩
      intro x nonempty suffix
      rcases List.suffix_cons_iff.1 suffix with rfl | inside
      · exact none
      · exact clear x nonempty inside
    · exact .inl ⟨t, word, rest, finds, (List.cons.inj (same.trans first)).2⟩
  · -- a call holds no capital behind its first letter
    obtain ⟨word, call, noCapital⟩ := calls.call finds
    obtain ⟨c, x, rfl⟩ := List.exists_cons_of_ne_nil nonempty
    obtain ⟨rfl, -⟩ := List.cons.inj same
    obtain ⟨-, rfl⟩ := List.cons.inj call
    exact absurd (part.mem List.mem_cons_self) noCapital

end InsertsCalls

namespace Shorthand

theorem Joined.suffix {separator s rest : List Char} {a b : DigitRun}
    (h : Joined separator a b s rest) : rest <:+ s :=
  ⟨a.digits ++ (separator ++ b.digits), by rw [h.1]; simp⟩

theorem dropParenthesis_suffix (s : List Char) : dropParenthesis s <:+ s := by
  unfold dropParenthesis
  split
  · exact List.suffix_cons _ _
  · exact List.suffix_refl _

theorem floorBegins_eq : floorBegins = 'M' :: "ath.floor(1.0*".toList := rfl

theorem flooredQuotient_eq (a b : List Char) :
    flooredQuotient a b = 'M' :: ("ath.floor(1.0*".toList ++ (a ++ '/' :: (b ++ [')']))) := by
  simp only [flooredQuotient, floorBegins_eq, List.cons_append, List.append_assoc]

theorem powerCall_eq (a b : List Char) :
    powerCall a b = 'M' :: ("ath.pow(".toList ++ (a ++ ',' :: (b ++ [')']))) := by
  have begins : "Math.pow(".toList = 'M' :: "ath.pow(".toList := rfl
  unfold powerCall
  simp only [begins, List.cons_append, List.append_assoc]

/-- The letters of a call behind its capital, with two runs of digits among them. -/
theorem capital_not_mem {word : List Char} (c : Char) (a b : DigitRun) (absent : 'M' ∉ word)
    (other : 'M' ≠ c) : 'M' ∉ word ++ (a.digits ++ c :: (b.digits ++ [')'])) := by
  have left : 'M' ∉ a.digits := a.not_mem rfl
  have right : 'M' ∉ b.digits := b.not_mem rfl
  simp only [List.mem_append, List.mem_cons, List.not_mem_nil, absent, left, right, other, or_false,
    false_or]
  decide

theorem wholeDivision_insertsCalls : InsertsCalls wholeDivision where
  suffix finds := by
    obtain ⟨a, b, joined, -⟩ := wholeDivision_finds_iff.1 finds
    exact joined.suffix
  call finds := by
    obtain ⟨a, b, -, rfl⟩ := wholeDivision_finds_iff.1 finds
    exact ⟨_, flooredQuotient_eq _ _, capital_not_mem '/' a b (by decide) (by decide)⟩

theorem doubleSlash_insertsCalls : InsertsCalls doubleSlash where
  suffix finds := by
    obtain ⟨rfl, -⟩ := doubleSlash_finds_iff.1 finds
    exact ⟨['/', '/'], rfl⟩
  call finds := by
    obtain ⟨-, rfl⟩ := doubleSlash_finds_iff.1 finds
    exact ⟨_, rfl, by decide⟩

theorem openFloor_insertsCalls : InsertsCalls openFloor where
  suffix finds := by
    obtain ⟨a, b, inside, behind, rfl, joined, -, rfl⟩ := openFloor_finds_iff.1 finds
    exact ((dropParenthesis_suffix behind).trans joined.suffix).trans (List.suffix_append _ _)
  call finds := by
    obtain ⟨a, b, -, -, -, -, rfl, -⟩ := openFloor_finds_iff.1 finds
    exact ⟨_, flooredQuotient_eq _ _, capital_not_mem '/' a b (by decide) (by decide)⟩

theorem digitPower_insertsCalls : InsertsCalls digitPower where
  suffix finds := by
    obtain ⟨a, b, joined, -⟩ := digitPower_finds_iff.1 finds
    exact joined.suffix
  call finds := by
    obtain ⟨a, b, -, rfl⟩ := digitPower_finds_iff.1 finds
    exact ⟨_, powerCall_eq _ _, capital_not_mem ',' a b (by decide) (by decide)⟩

end Shorthand

end Reckoner
