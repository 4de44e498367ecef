import Reckoner.Proofs.Screening.Search
import Reckoner.Proofs.Text.Tokens
import Reckoner.Screening

/-!
# What the screening decides

A line passes the screening if it has the shape of an expression, `LineShape`, and few enough
operators. `shapeSearch` and `operatorSearch` are the two expressions that say the same to a search
engine. The first can match a line in many ways, since its last digits may belong to either of its
runs; what it accepts are the lines of that shape (`occurs_shapeSearch_iff`). The second has a way
to match two slashes at once, which is never preferred, and so it finds the operators one by one
(`scan_operatorSearch_iff`).
-/

namespace Reckoner

/-! ## Operators -/

theorem isOperatorSymbol_of_isDigit {c : Char} (digit : c.isDigit = true) :
    isOperatorSymbol c = false := by
  rw [Bool.eq_false_iff]
  intro symbol
  simp only [isOperatorSymbol, Bool.or_eq_true, beq_iff_eq] at symbol
  rcases symbol with (((rfl | rfl) | rfl) | rfl) | rfl <;> exact absurd digit (by decide)

theorem countOperators_of_all_isDigit {s : List Char} (digits : s.all Char.isDigit = true) :
    countOperators s = 0 := by
  refine List.countP_eq_zero.2 fun c member => ?_
  rw [isOperatorSymbol_of_isDigit (List.all_eq_true.1 digits c member)]
  exact Bool.false_ne_true

theorem countOperators_append (s t : List Char) :
    countOperators (s ++ t) = countOperators s + countOperators t := List.countP_append

theorem countOperators_cons (c : Char) (s : List Char) :
    countOperators (c :: s) = countOperators s + if isOperatorSymbol c then 1 else 0 :=
  List.countP_cons

/-- An operator, or else two slashes. -/
def operatorSearch : Search :=
  .either (.one "-+*/^".toList.contains) (.next (.one (· == '/')) (.one (· == '/')))

theorem contains_operators (c : Char) : "-+*/^".toList.contains c = isOperatorSymbol c := by
  have characters : "-+*/^".toList = ['-', '+', '*', '/', '^'] := rfl
  rw [characters]
  simp [isOperatorSymbol, Bool.or_assoc, Bool.beq_eq_decide_eq]

/-- Two slashes are an operator first, wherever they stand. -/
theorem takesOne_operatorSearch : operatorSearch.TakesOne isOperatorSymbol where
  nothing u := rfl
  misses {c} u s other := by
    have noSlash : (c == '/') = false := by
      simp only [isOperatorSymbol, Bool.or_eq_false_iff] at other
      exact other.1.2
    simp only [operatorSearch, Search.ends, contains_operators, other, noSlash, Bool.false_eq_true,
      if_false, List.flatMap_nil, List.append_nil]
  prefers {c} u s symbol := by
    refine ⟨(Search.next (.one (· == '/')) (.one (· == '/'))).ends ⟨u, c :: s⟩, ?_⟩
    simp only [operatorSearch, Search.ends, contains_operators, symbol, if_true,
      List.singleton_append]

theorem scan_operatorSearch_iff {u s : List Char} {found : List (List Char)} :
    operatorSearch.Scan ⟨u, s⟩ found ↔ found = (s.filter isOperatorSymbol).map ([·]) :=
  takesOne_operatorSearch.scan_iff

/-! ## Shapes -/

/-- An optional minus, a digit, characters that are no line feeds, and one more digit. -/
def LineShape (s : List Char) : Prop :=
  ∃ sign first middle last, s = sign ++ first :: (middle ++ [last]) ∧ (sign = [] ∨ sign = ['-']) ∧
    first.isDigit = true ∧ '\n' ∉ middle ∧ last.isDigit = true

/-- A line from its beginning to its end: an optional minus, a digit, any characters but line feeds,
and one digit or more. -/
def shapeSearch : Search :=
  .next .start <| .next (.maybe (.one (· == '-'))) <| .next (.one Char.isDigit) <|
    .next (.many (· != '\n')) <| .next (.oneOrMore Char.isDigit) .finish

theorem isWellShaped_of_ne {c : Char} (noMinus : c ≠ '-') (s : List Char) :
    isWellShaped (c :: s) = (c.isDigit && s.all (· != '\n') && s.getLast?.any Char.isDigit) := by
  unfold isWellShaped
  split
  · rename_i same
    exact absurd (List.cons.inj same).1 noMinus
  · rfl

theorem isWellShaped_minus_cons (c : Char) (s : List Char) :
    isWellShaped ('-' :: c :: s) =
      (c.isDigit && s.all (· != '\n') && s.getLast?.any Char.isDigit) := rfl

theorem isWellShaped_cons {c : Char} (digit : c.isDigit = true) (s : List Char) :
    isWellShaped (c :: s) = (s.all (· != '\n') && s.getLast?.any Char.isDigit) := by
  have noMinus : c ≠ '-' := by
    rintro rfl
    exact absurd digit (by decide)
  rw [isWellShaped_of_ne noMinus, digit, Bool.true_and]

theorem isWellShaped_minus {c : Char} (digit : c.isDigit = true) (s : List Char) :
    isWellShaped ('-' :: c :: s) = (s.all (· != '\n') && s.getLast?.any Char.isDigit) := by
  rw [isWellShaped_minus_cons, digit, Bool.true_and]

/-- Behind the first digit there are characters that are no line feeds, and one more digit. -/
theorem isTail_iff {s : List Char} :
    (s.all (· != '\n') && s.getLast?.any Char.isDigit) = true ↔
      ∃ middle last, s = middle ++ [last] ∧ '\n' ∉ middle ∧ last.isDigit = true := by
  simp only [Bool.and_eq_true, List.all_eq_true, bne_iff_ne]
  constructor
  · rintro ⟨noFeed, ends⟩
    rcases List.eq_nil_or_concat s with rfl | ⟨middle, last, rfl⟩
    · exact absurd ends Bool.false_ne_true
    · rw [List.concat_eq_append, List.getLast?_concat, Option.any_some] at ends
      refine ⟨middle, last, List.concat_eq_append, fun member => ?_, ends⟩
      exact noFeed _ (by simp [member]) rfl
  · rintro ⟨middle, last, rfl, noFeed, digit⟩
    rw [List.getLast?_concat, Option.any_some]
    refine ⟨fun c member => ?_, digit⟩
    rcases List.mem_append.1 member with inside | final
    · exact ne_of_mem_of_not_mem inside noFeed
    · rw [List.mem_singleton.1 final]
      rintro rfl
      contradiction

theorem isWellShaped_iff {s : List Char} : isWellShaped s = true ↔ LineShape s := by
  constructor
  · intro shaped
    cases s with
    | nil => contradiction
    | cons c s =>
      by_cases minus : c = '-'
      · subst minus
        cases s with
        | nil => contradiction
        | cons d s =>
          rw [isWellShaped_minus_cons, Bool.and_assoc, Bool.and_eq_true, isTail_iff] at shaped
          obtain ⟨digit, middle, last, rfl, noFeed, final⟩ := shaped
          exact ⟨['-'], d, middle, last, rfl, .inr rfl, digit, noFeed, final⟩
      · rw [isWellShaped_of_ne minus, Bool.and_assoc, Bool.and_eq_true, isTail_iff] at shaped
        obtain ⟨digit, middle, last, rfl, noFeed, final⟩ := shaped
        exact ⟨[], c, middle, last, rfl, .inl rfl, digit, noFeed, final⟩
  · rintro ⟨sign, first, middle, last, rfl, rfl | rfl, digit, noFeed, final⟩
    · rw [List.nil_append, isWellShaped_cons digit]
      exact isTail_iff.2 ⟨middle, last, rfl, noFeed, final⟩
    · rw [List.singleton_append, isWellShaped_minus digit]
      exact isTail_iff.2 ⟨middle, last, rfl, noFeed, final⟩

/-- Characters that are no line feeds, and a run of digits behind them, end with one more digit. -/
theorem exists_tail_of_run {middle run : List Char} {c : Char}
    (noFeed : middle.all (· != '\n') = true) (digits : (c :: run).all Char.isDigit = true) :
    ∃ front last, middle ++ c :: run = front ++ [last] ∧ '\n' ∉ front ∧ last.isDigit = true := by
  have nonempty : c :: run ≠ [] := List.cons_ne_nil c run
  refine isTail_iff.1 ?_
  rw [Bool.and_eq_true, List.all_append, noFeed, Bool.true_and,
    List.getLast?_append_of_ne_nil _ nonempty, List.getLast?_eq_some_getLast nonempty,
    Option.any_some]
  exact ⟨all_ne_of_not_mem (not_mem_of_all digits rfl),
    List.all_eq_true.1 digits _ (List.getLast_mem nonempty)⟩

/-- Which of the digits at the end belong to which of its runs makes no difference. -/
theorem occurs_shapeSearch_iff {s : List Char} : shapeSearch.Occurs s ↔ LineShape s := by
  constructor
  · rintro ⟨u, v, rfl, some⟩
    obtain ⟨⟨_, _⟩, member⟩ := List.exists_mem_of_ne_nil _ some
    simp only [shapeSearch, Search.oneOrMore, Search.mem_ends_next, Search.mem_ends_start,
      Search.mem_ends_maybe, Search.mem_ends_one, Search.mem_ends_many, Search.mem_ends_finish,
      Cut.mk.injEq] at member
    obtain ⟨_, _, ⟨rfl, rfl, rfl⟩, _, _, sign, _, _, ⟨first, digit, rfl, -⟩, _, _,
      ⟨middle, noFeed, rfl, -⟩, _, _, ⟨_, _, ⟨c, final, rfl, -⟩, run, digits, rfl, -⟩,
      rfl, -, -⟩ := member
    rw [List.append_nil] at sign
    have all : (c :: run).all Char.isDigit = true := by
      rw [List.all_cons, final, digits, Bool.and_self]
    obtain ⟨front, last, shape, noFeed, lastDigit⟩ := exists_tail_of_run noFeed all
    rw [shape] at sign
    rcases sign with ⟨mark, minus, rfl, -⟩ | ⟨-, rfl⟩
    · rw [beq_iff_eq.1 minus]
      exact ⟨['-'], first, front, last, rfl, .inr rfl, digit, noFeed, lastDigit⟩
    · exact ⟨[], first, front, last, rfl, .inl rfl, digit, noFeed, lastDigit⟩
  · rintro ⟨sign, first, middle, last, rfl, minus, digit, noFeed, final⟩
    have whole : (⟨sign ++ [first] ++ middle ++ [last], []⟩ : Cut) ∈
        shapeSearch.ends ⟨[], sign ++ first :: (middle ++ [last])⟩ := by
      simp only [shapeSearch, Search.oneOrMore, Search.mem_ends_next, Search.mem_ends_start,
        Search.mem_ends_maybe, Search.mem_ends_one, Search.mem_ends_many, Search.mem_ends_finish,
        Cut.mk.injEq]
      refine ⟨[], _, ⟨trivial, rfl, rfl⟩, sign, _, ?_, _, _, ⟨first, digit, rfl, rfl⟩, _, _,
        ⟨middle, ?_, rfl, rfl⟩, _, _, ⟨_, _, ⟨last, final, rfl, rfl⟩, [], rfl, rfl, rfl⟩,
        rfl, ?_, rfl⟩
      · rcases minus with rfl | rfl
        · exact .inr ⟨rfl, rfl⟩
        · exact .inl ⟨'-', rfl, rfl, rfl⟩
      · exact all_ne_of_not_mem noFeed
      · rw [List.append_nil]
    exact ⟨[], _, rfl, List.ne_nil_of_mem whole⟩

/-! ## The decision -/

/-- A line is refused for its shape or for its operators, the shape first, or it passes. -/
theorem screen_cases (m : Nat) (s : List Char) :
    ¬ LineShape s ∧ screen m s = .error .malformedExpression ∨
    LineShape s ∧ m < countOperators s ∧ screen m s = .error (.tooManyOperators m) ∨
    LineShape s ∧ countOperators s ≤ m ∧ screen m s = .ok () := by
  rw [← isWellShaped_iff, screen]
  cases isWellShaped s with
  | false => exact .inl ⟨Bool.false_ne_true, rfl⟩
  | true =>
    rcases Nat.lt_or_ge m (countOperators s) with many | few
    · exact .inr (.inl ⟨rfl, many, by simp [many]⟩)
    · exact .inr (.inr ⟨rfl, few, by simp [few]⟩)

theorem screen_eq_iff (m : Nat) (s : List Char) :
    (screen m s = .error .malformedExpression ↔ ¬ LineShape s) ∧
    (screen m s = .error (.tooManyOperators m) ↔ LineShape s ∧ m < countOperators s) ∧
    (screen m s = .ok () ↔ LineShape s ∧ countOperators s ≤ m) := by
  rcases screen_cases m s with ⟨shapeless, answer⟩ | ⟨shaped, many, answer⟩ | ⟨shaped, few, answer⟩
  · simp [answer, shapeless]
  · simp [answer, shaped, many]
  · simp [answer, shaped, few]

theorem lineShape_of_screen {m : Nat} {s : List Char} (h : screen m s = .ok ()) : LineShape s :=
  ((screen_eq_iff m s).2.2.1 h).1

theorem countOperators_le_of_screen {m : Nat} {s : List Char} (h : screen m s = .ok ()) :
    countOperators s ≤ m :=
  ((screen_eq_iff m s).2.2.1 h).2

/-- What the screening of a line with at most `m` operators comes down to. -/
structure Screens (m : Nat) (s : List Char) : Prop where
  malformed : screen m s = .error .malformedExpression ↔ ¬ LineShape s
  tooMany : screen m s = .error (.tooManyOperators m) ↔ LineShape s ∧ m < countOperators s
  passes : screen m s = .ok () ↔ LineShape s ∧ countOperators s ≤ m
  /-- The shape is what a search finds. -/
  shape : shapeSearch.Occurs s ↔ LineShape s
  /-- The operators are the characters of a class. -/
  operators : countOperators s = s.countP "-+*/^".toList.contains
  /-- They are the matches that a search finds from left to right, and it finds no others. -/
  scan : ∃ found, found.length = countOperators s ∧
    ∀ other, operatorSearch.Scan ⟨[], s⟩ other ↔ other = found
  append : ∀ t, countOperators (s ++ t) = countOperators s + countOperators t
  slashes : ∀ t,
    countOperators (s ++ '/' :: '/' :: t) = countOperators s + 2 + countOperators t

/-- The screening refuses what is not shaped like an expression, and of the rest what has too many
operators. Both are what a search says: for the shape, whether there is a match at all, and for the
operators, how many matches are found from left to right. Two slashes count twice wherever they
stand. -/
theorem screen_decides (m : Nat) (s : List Char) : Screens m s := by
  obtain ⟨malformed, tooMany, passes⟩ := screen_eq_iff m s
  refine ⟨malformed, tooMany, passes, occurs_shapeSearch_iff, ?operators, ?scan,
    countOperators_append s, fun t => ?slashes⟩
  case operators => rw [countOperators, funext contains_operators]
  case scan =>
    refine ⟨(s.filter isOperatorSymbol).map ([·]), ?_, fun other => scan_operatorSearch_iff⟩
    rw [List.length_map, countOperators, List.countP_eq_length_filter]
  case slashes =>
    have two : countOperators ('/' :: '/' :: t) = 2 + countOperators t := by
      rw [countOperators_cons, countOperators_cons, Nat.add_comm 2]
      rfl
    rw [countOperators_append, two, Nat.add_assoc]

end Reckoner
