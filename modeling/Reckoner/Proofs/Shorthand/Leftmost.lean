import Reckoner.Proofs.Shorthand.NormalForm

/-!
# Leftmost substitution

What the substitutions of the shorthand do, said without a way to search. A `Rule` is an expression
to search for, made of words, runs of digits and characters that may be missing, and a template for
what is written in place of a match. `Replaces` takes a text apart at its matches: each begins at
the first place behind the one before where any match begins, and of the matches there it is the
longest (`Longest`).

`Recognises` ties a pattern to a rule at a single place, and `Recognises.replaces_iff` carries that
over to whole texts.
-/

namespace Reckoner.Shorthand

/-! ## Rules -/

/-- A piece of an expression to search for. -/
inductive Piece where
  | word (w : List Char)
  /-- One digit or more. -/
  | digits
  /-- The character, or nothing. -/
  | optional (c : Char)
deriving DecidableEq, Repr

/-- A piece of a replacement. -/
inductive Slot where
  | word (w : List Char)
  /-- A run of digits of the match, by its index. -/
  | run (index : Nat)
deriving DecidableEq, Repr

/-- What is searched for, and what is written instead. -/
structure Rule where
  search : List Piece
  template : List Slot
deriving DecidableEq, Repr

/-- The template with the runs of a match. -/
def Rule.fill (rule : Rule) (runs : List DigitRun) : List Char :=
  rule.template.flatMap fun
    | .word w => w
    | .run index => (runs[index]?.map DigitRun.digits).getD []

/-- The text is made of the pieces, with these runs for its digits. -/
def Matches : List Piece → List Char → List DigitRun → Prop
  | [], m, runs => m = [] ∧ runs = []
  | .word w :: pieces, m, runs => ∃ m', m = w ++ m' ∧ Matches pieces m' runs
  | .digits :: pieces, m, runs =>
    ∃ a m' runs', m = a.digits ++ m' ∧ runs = a :: runs' ∧ Matches pieces m' runs'
  | .optional c :: pieces, m, runs =>
    (∃ m', m = c :: m' ∧ Matches pieces m' runs) ∨ Matches pieces m runs

/-- Some match begins at the front of the text. -/
def Begins (search : List Piece) (s : List Char) : Prop :=
  ∃ m rest runs, s = m ++ rest ∧ Matches search m runs

/-- The match `m` in front of `rest` goes as far as any that begins there, and so does each of its
runs. -/
structure Longest (search : List Piece) (m rest : List Char) (runs : List DigitRun) : Prop where
  isMatch : Matches search m runs
  le : ∀ {m' rest' runs'}, m' ++ rest' = m ++ rest → Matches search m' runs' →
    m'.length ≤ m.length ∧
      List.Forall₂ (fun a b : DigitRun => a.digits.length ≤ b.digits.length) runs' runs

/-- The output is the text with its matches replaced from left to right: in each step no match
begins in the stretch `u`, and the longest one that begins behind it is replaced. -/
inductive Replaces (rule : Rule) : List Char → List Char → Prop
  | last {u} : (∀ x, x <:+ u → ¬ Begins rule.search x) → Replaces rule u u
  | next {u m rest runs out} :
      (∀ x, x ≠ [] → x <:+ u → ¬ Begins rule.search (x ++ (m ++ rest))) →
      Longest rule.search m rest runs → Replaces rule rest out →
      Replaces rule (u ++ (m ++ rest)) (u ++ (rule.fill runs ++ out))

/-- Where no match begins, the first character is kept. -/
theorem Replaces.cons {rule : Rule} {c : Char} {s out : List Char}
    (none : ¬ Begins rule.search (c :: s)) (h : Replaces rule s out) :
    Replaces rule (c :: s) (c :: out) := by
  cases h with
  | last clear =>
    refine .last fun x suffix => ?_
    rcases List.suffix_cons_iff.1 suffix with rfl | inside
    · exact none
    · exact clear x inside
  | next clear longest behind =>
    rename_i u m rest runs out
    refine .next (u := c :: u) (fun x nonempty suffix => ?_) longest behind
    rcases List.suffix_cons_iff.1 suffix with rfl | inside
    · exact none
    · exact clear x nonempty inside

/-! ## Patterns for rules -/

/-- The pattern finds what the rule asks for: the longest match with its replacement, wherever a
match begins. -/
structure Recognises (rule : Rule) (pattern : Pattern) : Prop where
  finds_iff : ∀ {s replacement rest}, pattern.Finds s replacement rest ↔
    ∃ m runs, s = m ++ rest ∧ Longest rule.search m rest runs ∧ replacement = rule.fill runs
  exists_finds : ∀ {s}, Begins rule.search s → ∃ replacement rest, pattern.Finds s replacement rest

namespace Recognises

variable {rule : Rule} {pattern : Pattern}

theorem misses_iff (h : Recognises rule pattern) {s : List Char} :
    pattern.Misses s ↔ ¬ Begins rule.search s := by
  rw [Pattern.misses_iff]
  constructor
  · intro none begins
    obtain ⟨replacement, rest, finds⟩ := h.exists_finds begins
    exact none replacement rest finds
  · intro none replacement rest finds
    obtain ⟨m, runs, shape, longest, -⟩ := h.finds_iff.1 finds
    exact none ⟨m, rest, runs, shape, longest.isMatch⟩

theorem substitute_of_replaces (h : Recognises rule pattern) {s out : List Char}
    (replaces : Replaces rule s out) : pattern.substitute s = out := by
  induction replaces with
  | @last u clear =>
    have kept : pattern.substitute (u ++ []) = u ++ pattern.substitute [] := by
      refine Pattern.substitute_append_of_misses fun x _ suffix => ?_
      rw [List.append_nil]
      exact h.misses_iff.2 (clear x suffix)
    rwa [Pattern.substitute_nil, List.append_nil] at kept
  | @next u m rest runs out clear longest _ ih =>
    have found : pattern.Finds (m ++ rest) (rule.fill runs) rest :=
      h.finds_iff.2 ⟨m, runs, rfl, longest, rfl⟩
    rw [Pattern.substitute_append_of_misses fun x nonempty suffix =>
        h.misses_iff.2 (clear x nonempty suffix),
      Pattern.substitute_of_found found, ih]

theorem replaces_substitute (h : Recognises rule pattern) (s : List Char) :
    Replaces rule s (pattern.substitute s) := by
  fun_induction Pattern.substitute pattern s with
  | case1 =>
    refine .last fun x suffix => ?_
    rw [List.suffix_nil.1 suffix]
    exact h.misses_iff.1 (Pattern.misses_nil pattern)
  | case2 c tail found recognised ih =>
    obtain ⟨m, runs, shape, longest, same⟩ := h.finds_iff.1 ⟨found, recognised, rfl, rfl⟩
    have replaces : Replaces rule (m ++ found.rest)
        (rule.fill runs ++ pattern.substitute found.rest) := by
      refine .next (u := []) (fun x nonempty suffix => ?_) longest ih
      exact absurd (List.suffix_nil.1 suffix) nonempty
    rwa [← shape, ← same] at replaces
  | case3 c tail none ih => exact ih.cons (h.misses_iff.1 none)

/-- A substitution by the pattern does what the rule says, and nothing else does. -/
theorem replaces_iff (h : Recognises rule pattern) {s out : List Char} :
    Replaces rule s out ↔ pattern.substitute s = out := by
  constructor
  · exact h.substitute_of_replaces
  · rintro rfl
    exact h.replaces_substitute s

end Recognises

/-! ## Two runs with a separator -/

section Operands

variable {separator s m rest : List Char} {a b : DigitRun} {runs : List DigitRun}

theorem exists_joined (separator : List Char) (a b : DigitRun) (rest : List Char) :
    ∃ b' behind, Joined separator a b' (a.digits ++ (separator ++ (b.digits ++ rest))) behind := by
  refine ⟨b.extend rest, rest.dropWhile Char.isDigit, ?_, stops_dropWhile rest⟩
  simp [DigitRun.extend]

/-- The runs beside a separator are at least as long as those of any other match. -/
theorem Joined.le (separates : ∀ v, Stops Char.isDigit (separator ++ v))
    (h : Joined separator a b s rest) {a' b' : DigitRun} {rest' : List Char}
    (other : s = a'.digits ++ (separator ++ (b'.digits ++ rest'))) :
    a'.digits = a.digits ∧ b'.digits.length ≤ b.digits.length := by
  obtain ⟨shape, stops⟩ := h
  have left : a'.digits = a.digits := by
    rw [← takeWhile_append_of_stops a'.all_isDigit (separates (b'.digits ++ rest')), ← other, shape,
      takeWhile_append_of_stops a.all_isDigit (separates _)]
  have behind : b'.digits ++ rest' = b.digits ++ rest := by
    rw [shape, left] at other
    simpa using other.symm
  refine ⟨left, ?_⟩
  have run := takeWhile_append_of_stops b.all_isDigit stops
  rw [← behind, List.takeWhile_append_of_pos (List.all_eq_true.1 b'.all_isDigit)] at run
  rw [← run, List.length_append]
  exact Nat.le_add_right _ _

theorem matches_operands_iff : Matches [.digits, .word separator, .digits] m runs ↔
    ∃ a b : DigitRun, m = a.digits ++ (separator ++ b.digits) ∧ runs = [a, b] := by
  simp only [Matches]
  constructor
  · rintro ⟨a, -, -, rfl, rfl, -, rfl, b, -, -, rfl, rfl, rfl, rfl⟩
    exact ⟨a, b, by simp, rfl⟩
  · rintro ⟨a, b, rfl, rfl⟩
    exact ⟨a, _, _, rfl, rfl, _, rfl, b, [], [], by simp, rfl, rfl, rfl⟩

/-- A match of two runs is the longest one if it takes all digits that there are. -/
theorem longest_operands_iff (separates : ∀ v, Stops Char.isDigit (separator ++ v)) :
    Longest [.digits, .word separator, .digits] m rest runs ↔
      ∃ a b : DigitRun, m = a.digits ++ (separator ++ b.digits) ∧ runs = [a, b] ∧
        Stops Char.isDigit rest := by
  constructor
  · rintro ⟨isMatch, le⟩
    obtain ⟨a, b, rfl, rfl⟩ := matches_operands_iff.1 isMatch
    refine ⟨a, b, rfl, rfl, fun c first => ?_⟩
    rw [Bool.eq_false_iff]
    intro digit
    -- with one more digit there would be a longer match
    obtain ⟨rest, rfl⟩ := List.head?_eq_some_iff.1 first
    have further : a.digits ++ (separator ++ (b.append (.ofFront digit [])).digits) ++ rest =
        a.digits ++ (separator ++ b.digits) ++ c :: rest := by
      simp [DigitRun.append, DigitRun.ofFront]
    have longer := (le further (matches_operands_iff.2 ⟨_, _, rfl, rfl⟩)).1
    simp only [DigitRun.append, DigitRun.ofFront, List.length_append, List.length_cons] at longer
    omega
  · rintro ⟨a, b, rfl, rfl, stops⟩
    refine ⟨matches_operands_iff.2 ⟨a, b, rfl, rfl⟩, ?_⟩
    intro m' rest' runs' same other
    obtain ⟨a', b', rfl, rfl⟩ := matches_operands_iff.1 other
    simp only [List.append_assoc] at same
    have joined : Joined separator a b _ rest := ⟨rfl, stops⟩
    obtain ⟨left, right⟩ := joined.le separates same.symm
    refine ⟨?_, .cons (Nat.le_of_eq (congrArg List.length left)) (.cons right .nil)⟩
    simp only [List.length_append, left]
    omega

end Operands

/-! ## The four rules -/

/-- A quotient of two runs, as it is written out. -/
def quotientTemplate : List Slot :=
  [.word floorBegins, .run 0, .word ['/'], .run 1, .word [')']]

/-- A power of two runs, as it is written out. -/
def powerTemplate : List Slot :=
  [.word "Math.pow(".toList, .run 0, .word [','], .run 1, .word [')']]

/-- Two runs of digits with two slashes between them. -/
def wholeDivisionRule : Rule where
  search := [.digits, .word ['/', '/'], .digits]
  template := quotientTemplate

/-- Two slashes. -/
def doubleSlashRule : Rule where
  search := [.word ['/', '/']]
  template := [.word floorBegins]

/-- The beginning of a floored quotient with its two runs of digits, closed or not. -/
def openFloorRule : Rule where
  search := [.word floorBegins, .digits, .word ['/'], .digits, .optional ')']
  template := quotientTemplate

/-- Two runs of digits with a caret between them. -/
def digitPowerRule : Rule where
  search := [.digits, .word ['^'], .digits]
  template := powerTemplate

theorem fill_quotientTemplate (search : List Piece) (a b : DigitRun) :
    Rule.fill ⟨search, quotientTemplate⟩ [a, b] = flooredQuotient a.digits b.digits := by
  simp [Rule.fill, quotientTemplate, flooredQuotient]

/-- A pattern that finds two runs beside a separator, with a call for them, recognises the rule of
that form. -/
theorem recognises_operands {pattern : Pattern} {separator : List Char} {template : List Slot}
    {call : List Char → List Char → List Char}
    (separates : ∀ v, Stops Char.isDigit (separator ++ v))
    (fill : ∀ search (a b : DigitRun), Rule.fill ⟨search, template⟩ [a, b] = call a.digits b.digits)
    (finds_iff : ∀ {s replacement rest}, pattern.Finds s replacement rest ↔
      ∃ a b, Joined separator a b s rest ∧ replacement = call a.digits b.digits) :
    Recognises ⟨[.digits, .word separator, .digits], template⟩ pattern where
  finds_iff {s replacement rest} := by
    rw [finds_iff]
    constructor
    · rintro ⟨a, b, ⟨rfl, stops⟩, rfl⟩
      exact ⟨_, [a, b], by simp, (longest_operands_iff separates).2 ⟨a, b, rfl, rfl, stops⟩,
        (fill _ a b).symm⟩
    · rintro ⟨m, runs, rfl, longest, rfl⟩
      obtain ⟨a, b, rfl, rfl, stops⟩ := (longest_operands_iff separates).1 longest
      exact ⟨a, b, ⟨by simp, stops⟩, fill _ a b⟩
  exists_finds begins := by
    obtain ⟨m, rest, runs, rfl, isMatch⟩ := begins
    obtain ⟨a, b, rfl, rfl⟩ := matches_operands_iff.1 isMatch
    obtain ⟨b', behind, joined⟩ := exists_joined separator a b rest
    exact ⟨_, behind, finds_iff.2 ⟨a, b', by simpa using joined, rfl⟩⟩

theorem recognises_wholeDivision : Recognises wholeDivisionRule wholeDivision :=
  recognises_operands (fun _ => stops_cons_iff.2 rfl) fill_quotientTemplate wholeDivision_finds_iff

theorem fill_powerTemplate (search : List Piece) (a b : DigitRun) :
    Rule.fill ⟨search, powerTemplate⟩ [a, b] = powerCall a.digits b.digits := by
  unfold powerTemplate powerCall
  generalize "Math.pow(".toList = begins
  simp [Rule.fill]

theorem recognises_digitPower : Recognises digitPowerRule digitPower :=
  recognises_operands (fun _ => stops_cons_iff.2 rfl) fill_powerTemplate digitPower_finds_iff

theorem recognises_doubleSlash : Recognises doubleSlashRule doubleSlash where
  finds_iff {s replacement rest} := by
    rw [doubleSlash_finds_iff]
    constructor
    · rintro ⟨rfl, rfl⟩
      refine ⟨['/', '/'], [], rfl, ⟨⟨[], rfl, rfl, rfl⟩, ?_⟩, rfl⟩
      rintro m' rest' runs' - ⟨-, rfl, rfl, rfl⟩
      exact ⟨Nat.le_refl _, .nil⟩
    · rintro ⟨m, runs, rfl, ⟨⟨-, rfl, rfl, rfl⟩, -⟩, rfl⟩
      exact ⟨rfl, rfl⟩
  exists_finds begins := by
    obtain ⟨m, rest, runs, rfl, -, rfl, rfl, rfl⟩ := begins
    exact ⟨_, rest, doubleSlash_finds_iff.2 ⟨rfl, rfl⟩⟩

theorem matches_openFloor_iff {m : List Char} {runs : List DigitRun} :
    Matches openFloorRule.search m runs ↔ ∃ (a b : DigitRun) (x : List Char),
      m = floorBegins ++ (a.digits ++ (['/'] ++ (b.digits ++ x))) ∧ runs = [a, b] ∧
        (x = [')'] ∨ x = []) := by
  simp only [openFloorRule, Matches]
  constructor
  · rintro ⟨-, rfl, a, -, -, rfl, rfl, -, rfl, b, -, -, rfl, rfl, ⟨-, rfl, rfl, rfl⟩ | ⟨rfl, rfl⟩⟩
    · exact ⟨a, b, [')'], rfl, rfl, .inl rfl⟩
    · exact ⟨a, b, [], rfl, rfl, .inr rfl⟩
  · rintro ⟨a, b, x, rfl, rfl, closed⟩
    refine ⟨_, rfl, a, _, _, rfl, rfl, _, rfl, b, x, [], rfl, rfl, ?_⟩
    rcases closed with rfl | rfl
    · exact .inl ⟨[], rfl, rfl, rfl⟩
    · exact .inr ⟨rfl, rfl⟩

theorem exists_closing (s : List Char) :
    ∃ x, (x = [')'] ∨ x = []) ∧ s = x ++ dropParenthesis s := by
  unfold dropParenthesis
  split
  · exact ⟨[')'], .inl rfl, rfl⟩
  · exact ⟨[], .inr rfl, rfl⟩

section OpenFloor

variable {a b b' : DigitRun} {x x' m rest rest' : List Char} {runs : List DigitRun}

/-- Behind a longest match there is neither a digit of the divisor nor the parenthesis: with a
further character that fits there would be a longer match. -/
theorem ends_of_longest (closed : x = [')'] ∨ x = [])
    (longest : Longest openFloorRule.search
      (floorBegins ++ (a.digits ++ (['/'] ++ (b.digits ++ x)))) rest runs) :
    Stops Char.isDigit (x ++ rest) ∧ dropParenthesis (x ++ rest) = rest := by
  rcases closed with rfl | rfl
  · exact ⟨stops_cons_iff.2 rfl, rfl⟩
  cases rest with
  | nil => exact ⟨stops_nil, rfl⟩
  | cons c rest =>
    refine ⟨stops_cons_iff.2 (Bool.eq_false_iff.2 fun digit => ?_), ?_⟩
    · let b' := b.append (.ofFront digit [])
      have further : floorBegins ++ (a.digits ++ (['/'] ++ (b'.digits ++ []))) ++ rest =
          floorBegins ++ (a.digits ++ (['/'] ++ (b.digits ++ []))) ++ c :: rest := by
        simp [b', DigitRun.append, DigitRun.ofFront]
      have longer := (longest.le further (matches_openFloor_iff.2 ⟨_, _, _, rfl, rfl, .inr rfl⟩)).1
      simp only [b', DigitRun.append, DigitRun.ofFront, List.length_append,
        List.length_cons] at longer
      omega
    · by_cases paren : c = ')'
      · subst paren
        have further : floorBegins ++ (a.digits ++ (['/'] ++ (b.digits ++ [')']))) ++ rest =
            floorBegins ++ (a.digits ++ (['/'] ++ (b.digits ++ []))) ++ ')' :: rest := by simp
        have longer :=
          (longest.le further (matches_openFloor_iff.2 ⟨_, _, _, rfl, rfl, .inl rfl⟩)).1
        simp only [List.length_append, List.length_cons] at longer
        omega
      · simp [dropParenthesis, paren]

/-- A parenthesis does not make up for a digit: where it is not taken, none is there behind all
digits. -/
theorem length_closed_le (closed : x = [')'] ∨ x = []) (closed' : x' = [')'] ∨ x' = [])
    (dropped : dropParenthesis (x ++ rest) = rest) (right : b'.digits.length ≤ b.digits.length)
    (same : b'.digits ++ (x' ++ rest') = b.digits ++ (x ++ rest)) :
    b'.digits.length + x'.length ≤ b.digits.length + x.length := by
  rcases closed with rfl | rfl <;> rcases closed' with rfl | rfl
  · exact Nat.add_le_add_right right 1
  · exact Nat.le_add_right_of_le right
  · refine Nat.lt_of_le_of_ne right fun equal => ?_
    obtain rfl : ')' :: rest' = rest := (List.append_inj same equal).2
    exact List.cons_ne_self _ _ dropped.symm
  · exact right

/-- The longest match takes all digits of the divisor, and then the parenthesis if it is there. -/
theorem longest_openFloor_iff :
    Longest openFloorRule.search m rest runs ↔ ∃ (a b : DigitRun) (x : List Char),
      m = floorBegins ++ (a.digits ++ (['/'] ++ (b.digits ++ x))) ∧ runs = [a, b] ∧
        (x = [')'] ∨ x = []) ∧ Stops Char.isDigit (x ++ rest) ∧
        dropParenthesis (x ++ rest) = rest := by
  constructor
  · intro longest
    obtain ⟨a, b, x, rfl, rfl, closed⟩ := matches_openFloor_iff.1 longest.isMatch
    exact ⟨a, b, x, rfl, rfl, closed, ends_of_longest closed longest⟩
  · rintro ⟨a, b, x, rfl, rfl, closed, stops, dropped⟩
    refine ⟨matches_openFloor_iff.2 ⟨a, b, x, rfl, rfl, closed⟩, ?_⟩
    intro m' rest' runs' same other
    obtain ⟨a', b', x', rfl, rfl, closed'⟩ := matches_openFloor_iff.1 other
    simp only [List.append_assoc, List.append_cancel_left_eq] at same
    have joined : Joined ['/'] a b _ (x ++ rest) := ⟨rfl, stops⟩
    obtain ⟨left, right⟩ := joined.le (fun _ => stops_cons_iff.2 rfl) same.symm
    rw [left] at same
    have behind := List.append_cancel_left (List.append_cancel_left same)
    have last := length_closed_le closed closed' dropped right behind
    refine ⟨?_, .cons (Nat.le_of_eq (congrArg List.length left)) (.cons right .nil)⟩
    simp only [List.length_append, left]
    omega

end OpenFloor

theorem recognises_openFloor : Recognises openFloorRule openFloor where
  finds_iff {s replacement rest} := by
    rw [openFloor_finds_iff]
    constructor
    · rintro ⟨a, b, inside, behind, rfl, ⟨rfl, stops⟩, rfl, rfl⟩
      obtain ⟨x, closed, shape⟩ := exists_closing behind
      refine ⟨floorBegins ++ (a.digits ++ (['/'] ++ (b.digits ++ x))), [a, b], ?_,
        longest_openFloor_iff.2 ⟨a, b, x, rfl, rfl, closed, ?_⟩, (fill_quotientTemplate _ a b).symm⟩
      · simp only [List.append_assoc, ← shape]
      · rw [← shape]
        exact ⟨stops, rfl⟩
    · rintro ⟨m, runs, rfl, longest, rfl⟩
      obtain ⟨a, b, x, rfl, rfl, -, stops, dropped⟩ := longest_openFloor_iff.1 longest
      exact ⟨a, b, _, x ++ rest, by simp, ⟨rfl, stops⟩, fill_quotientTemplate _ a b, dropped.symm⟩
  exists_finds begins := by
    obtain ⟨m, rest, runs, rfl, isMatch⟩ := begins
    obtain ⟨a, b, x, rfl, rfl, -⟩ := matches_openFloor_iff.1 isMatch
    obtain ⟨b', behind, joined⟩ := exists_joined ['/'] a b (x ++ rest)
    exact ⟨_, _, openFloor_finds_iff.2 ⟨a, b', _, behind, by simp, joined, rfl, rfl⟩⟩

/-! ## The expansion -/

/-- Each substitution of the expansion takes the text apart at the leftmost, longest and
non-overlapping matches of its rule and fills in the template for each of them; and the expansion is
the four substitutions in their order. -/
theorem expand_leftmost :
    (∀ s out, Replaces wholeDivisionRule s out ↔ wholeDivision.substitute s = out) ∧
    (∀ s out, Replaces doubleSlashRule s out ↔ doubleSlash.substitute s = out) ∧
    (∀ s out, Replaces openFloorRule s out ↔ openFloor.substitute s = out) ∧
    (∀ s out, Replaces digitPowerRule s out ↔ digitPower.substitute s = out) ∧
    ∀ s out, expand s = out ↔ ∃ t₁ t₂ t₃,
      Replaces wholeDivisionRule s t₁ ∧ Replaces doubleSlashRule t₁ t₂ ∧
        Replaces openFloorRule t₂ t₃ ∧ Replaces digitPowerRule t₃ out := by
  refine ⟨fun _ _ => recognises_wholeDivision.replaces_iff,
    fun _ _ => recognises_doubleSlash.replaces_iff, fun _ _ => recognises_openFloor.replaces_iff,
    fun _ _ => recognises_digitPower.replaces_iff, fun s out => ?_⟩
  simp only [recognises_wholeDivision.replaces_iff, recognises_doubleSlash.replaces_iff,
    recognises_openFloor.replaces_iff, recognises_digitPower.replaces_iff]
  constructor
  · intro expanded
    exact ⟨_, _, _, rfl, rfl, rfl, expanded⟩
  · rintro ⟨_, _, _, rfl, rfl, rfl, expanded⟩
    exact expanded

/-- A run that has been taken as a divisor is no dividend any more. -/
theorem expand_leftmost_pairs : Replaces wholeDivisionRule "1//2//3//4".toList
    "Math.floor(1.0*1/2)//Math.floor(1.0*3/4)".toList := by
  obtain ⟨wholeDivision_iff, -⟩ := expand_leftmost
  exact (wholeDivision_iff _ _).2 (by decide +kernel)

end Reckoner.Shorthand
