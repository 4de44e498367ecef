import Reckoner.Evaluation
import Reckoner.Proofs.Shorthand.Occurrence

/-!
# The normal form of shorthand

`expand` leaves no shorthand behind: its result is normal (`isNormal_expand`). What is normal
already it leaves alone (`expand_of_isNormal`).

For the first half each part of the normal form is followed through the substitutions. The second
one removes the double slashes, and the later two insert none; the third one closes the floored
quotients, and the last one opens none; the last one removes the powers.
-/

namespace Reckoner

/-! ## Runs of digits -/

namespace DigitRun

theorem exists_eq_append (a : DigitRun) : ∃ u c, a.digits = u ++ [c] ∧ c.isDigit = true := by
  obtain ⟨u, c, shape⟩ := (List.eq_nil_or_concat' a.digits).resolve_left a.ne_nil
  exact ⟨u, c, shape, List.all_eq_true.1 a.all_isDigit c (by simp [shape])⟩

/-- The run of digits at the front of a text that begins with one. -/
def ofFront {c : Char} (digit : c.isDigit = true) (s : List Char) : DigitRun where
  digits := c :: s.takeWhile Char.isDigit
  ne_nil := List.cons_ne_nil _ _
  all_isDigit := by rw [List.all_cons, digit, List.all_takeWhile, Bool.and_self]

/-- Two runs of digits side by side make one. -/
def append (a b : DigitRun) : DigitRun where
  digits := a.digits ++ b.digits
  ne_nil := List.append_ne_nil_of_left_ne_nil a.ne_nil _
  all_isDigit := by rw [List.all_append, a.all_isDigit, b.all_isDigit, Bool.and_self]

/-- A run together with the digits that go on behind it. -/
def extend (a : DigitRun) (s : List Char) : DigitRun where
  digits := a.digits ++ s.takeWhile Char.isDigit
  ne_nil := List.append_ne_nil_of_left_ne_nil a.ne_nil _
  all_isDigit := by rw [List.all_append, a.all_isDigit, List.all_takeWhile, Bool.and_self]

end DigitRun

namespace Shorthand

/-! ## Parts of the normal form -/

/-- No two slashes stand side by side. -/
def SingleSlashes (s : List Char) : Prop := ∀ u v, s ≠ u ++ '/' :: '/' :: v

/-- The beginning of a floored quotient with its two runs of digits is closed at once. -/
def FloorsClosed (s : List Char) : Prop :=
  ∀ u inside a b v, s = u ++ (floorBegins ++ inside) → Joined ['/'] a b inside v →
    v.head? = some ')'

/-- No caret stands between two digits. -/
def NoPowers (s : List Char) : Prop :=
  ∀ u c d v, s = u ++ c :: '^' :: d :: v → ¬ (c.isDigit = true ∧ d.isDigit = true)

/-- A text without shorthand, in which the calls that shorthand stands for are closed. -/
structure IsNormal (s : List Char) : Prop where
  singleSlashes : SingleSlashes s
  floorsClosed : FloorsClosed s
  noPowers : NoPowers s

/-- The runs beside a separator take all digits there are, so that only one text can be left
behind. -/
theorem Joined.rest_unique {separator s r r' : List Char} {a b a' b' : DigitRun}
    (separates : ∀ v, Stops Char.isDigit (separator ++ v)) (h : Joined separator a b s r)
    (h' : Joined separator a' b' s r') : r = r' := by
  obtain ⟨o, found, -, -, rfl⟩ := exists_operands?_of_joined separates h
  obtain ⟨o', found', -, -, rfl⟩ := exists_operands?_of_joined separates h'
  rw [found, Option.some.injEq] at found'
  rw [found']

/-! ## Double slashes -/

theorem singleSlashes_doubleSlash (s : List Char) : SingleSlashes (doubleSlash.substitute s) := by
  intro u v output
  rcases doubleSlash_insertsCalls.of_suffix ⟨u, output.symm⟩ with
    ⟨t, -, same⟩ | ⟨t, word, rest, x, finds, nonempty, part, same⟩
  · -- both slashes are kept, although they are an occurrence
    obtain ⟨rest, rfl, -, clear⟩ :=
      doubleSlash_insertsCalls.kept (w := ['/', '/']) (by simp) same.symm
    exact (clear _ (by simp) (List.suffix_refl _)).not_finds (doubleSlash_finds_iff.2 ⟨rfl, rfl⟩)
  · obtain ⟨-, call⟩ := doubleSlash_finds_iff.1 finds
    rw [floorBegins_eq, List.cons.injEq] at call
    obtain ⟨c, x, rfl⟩ := List.exists_cons_of_ne_nil nonempty
    have slash : '/' = c := (List.cons.inj same).1
    have absent : '/' ∉ word := by rw [call.2]; decide
    exact absent (part.mem (slash ▸ List.mem_cons_self))

/-- Calls with one slash at most, and a parenthesis at their end, add no double slash. -/
theorem SingleSlashes.substitute {pattern : Pattern} (calls : InsertsCalls pattern)
    (tame : ∀ {t word rest}, pattern.Finds t ('M' :: word) rest →
      word.count '/' ≤ 1 ∧ word.getLast? = some ')')
    {s : List Char} (h : SingleSlashes s) : SingleSlashes (pattern.substitute s) := by
  intro u v output
  rcases calls.of_suffix ⟨u, output.symm⟩ with
    ⟨t, ⟨u, rfl⟩, same⟩ | ⟨t, word, rest, x, finds, nonempty, part, same⟩
  · obtain ⟨rest, rfl, -, -⟩ := calls.kept (w := ['/', '/']) (by simp) same.symm
    exact h u rest rfl
  · obtain ⟨few, last⟩ := tame finds
    match x, nonempty with
    | [c], _ =>
      -- the first slash would be the end of the call
      obtain rfl : '/' = c := (List.cons.inj same).1
      rw [List.singleton_suffix_iff_getLast?_eq_some, last] at part
      contradiction
    | c :: d :: x, _ =>
      obtain ⟨rfl, behind⟩ := List.cons.inj same
      obtain rfl : '/' = d := (List.cons.inj behind).1
      have count := part.sublist.count_le '/'
      simp only [List.count_cons_self] at count
      omega

theorem tame_call {word : List Char} (c : Char) (a b : DigitRun) (absent : '/' ∉ word) :
    (word ++ (a.digits ++ c :: (b.digits ++ [')']))).count '/' ≤ 1 ∧
      (word ++ (a.digits ++ c :: (b.digits ++ [')']))).getLast? = some ')' := by
  have none {u : List Char} (h : '/' ∉ u) : u.count '/' = 0 := List.count_eq_zero.2 h
  constructor
  · rw [List.count_append, List.count_append, List.count_cons, List.count_append, none absent,
      none (a.not_mem rfl), none (b.not_mem rfl), none (u := [')']) (by decide)]
    split <;> omega
  · rw [List.getLast?_append_of_ne_nil _ (by simp), List.getLast?_append_of_ne_nil _ (by simp),
      List.getLast?_cons_of_ne_nil (by simp), List.getLast?_concat]

theorem SingleSlashes.openFloor {s : List Char} (h : SingleSlashes s) :
    SingleSlashes (openFloor.substitute s) := by
  refine h.substitute openFloor_insertsCalls ?_
  intro t word rest finds
  obtain ⟨a, b, -, -, -, -, call, -⟩ := openFloor_finds_iff.1 finds
  obtain ⟨-, rfl⟩ := List.cons.inj (call.trans (flooredQuotient_eq _ _))
  exact tame_call '/' a b (by decide)

theorem SingleSlashes.digitPower {s : List Char} (h : SingleSlashes s) :
    SingleSlashes (digitPower.substitute s) := by
  refine h.substitute digitPower_insertsCalls ?_
  intro t word rest finds
  obtain ⟨a, b, -, call⟩ := digitPower_finds_iff.1 finds
  obtain ⟨-, rfl⟩ := List.cons.inj (call.trans (powerCall_eq _ _))
  exact tame_call ',' a b (by decide)

/-! ## Floored quotients -/

/-- Where an output begins a floored quotient with its runs, that has just been inserted, or else it
was there before with nothing inserted in it. -/
theorem floorBegins_cases {pattern : Pattern} (calls : InsertsCalls pattern)
    {s u inside behind : List Char} {a b : DigitRun} (joined : Joined ['/'] a b inside behind)
    (output : pattern.substitute s = u ++ (floorBegins ++ inside)) :
    (∃ t word rest, pattern.Finds t ('M' :: word) rest ∧
      floorBegins ++ inside = 'M' :: (word ++ pattern.substitute rest)) ∨
    ∃ u rest, s = u ++ (floorBegins ++ (a.digits ++ (['/'] ++ (b.digits ++ rest)))) ∧
      pattern.substitute rest = behind ∧
      pattern.Misses (floorBegins ++ (a.digits ++ (['/'] ++ (b.digits ++ rest)))) ∧
      pattern.Misses (b.digits ++ rest) := by
  obtain ⟨rfl, -⟩ := joined
  obtain ⟨name, begins, noCapital⟩ : ∃ name, floorBegins = 'M' :: name ∧ 'M' ∉ name :=
    ⟨_, floorBegins_eq, by decide⟩
  have absent : 'M' ∉ name ++ a.digits ++ ['/'] ++ b.digits := by
    simp [noCapital, a.not_mem (c := 'M') rfl, b.not_mem (c := 'M') rfl]
  rw [begins] at output ⊢
  have found : pattern.substitute s =
      u ++ 'M' :: (name ++ a.digits ++ ['/'] ++ b.digits ++ behind) := by
    rw [output]
    simp
  rcases calls.of_capital absent found with
    ⟨t, word, rest, finds, same⟩ | ⟨u, rest, rfl, same, clear⟩
  · exact .inl ⟨t, word, rest, finds, by rw [← same]; simp⟩
  · have first := clear _ (by simp) (List.suffix_refl _)
    have last := clear b.digits b.ne_nil ⟨'M' :: (name ++ a.digits ++ ['/']), by simp⟩
    exact .inr ⟨u, rest, by simp, same, by simpa using first, last⟩

/-- A text without a digit in front is the output of such a text, for a pattern that begins with
something else. -/
theorem stops_of_openFloor {s : List Char} (h : Stops Char.isDigit (openFloor.substitute s)) :
    Stops Char.isDigit s := by
  cases s with
  | nil => exact stops_nil
  | cons c s =>
    by_cases capital : c = 'M'
    · exact stops_cons_iff.2 (by rw [capital]; rfl)
    · rw [Pattern.substitute_of_none (openFloor_eq_none capital)] at h
      exact stops_cons_iff.2 (stops_cons_iff.1 h)

theorem floorsClosed_openFloor (s : List Char) : FloorsClosed (openFloor.substitute s) := by
  intro u inside a b behind output joined
  rcases floorBegins_cases openFloor_insertsCalls joined output with
    ⟨t, word, rest, finds, same⟩ | ⟨u, rest, rfl, same, missed, -⟩
  · -- what has been inserted is closed
    obtain ⟨a', b', -, -, -, -, call, -⟩ := openFloor_finds_iff.1 finds
    have closed : Joined ['/'] a' b' inside (')' :: openFloor.substitute rest) := by
      refine ⟨?_, stops_cons_iff.2 rfl⟩
      apply @List.append_cancel_left _ floorBegins
      rw [same, ← List.cons_append, call, flooredQuotient]
      simp
    rw [joined.rest_unique (fun _ => stops_cons_iff.2 rfl) closed]
    rfl
  · -- with both of its runs it is an occurrence
    have stops : Stops Char.isDigit rest := stops_of_openFloor (same ▸ joined.2)
    exact absurd (openFloor_finds_iff.2 ⟨a, b, _, rest, rfl, ⟨rfl, stops⟩, rfl, rfl⟩)
      missed.not_finds

theorem FloorsClosed.digitPower {s : List Char} (h : FloorsClosed s) :
    FloorsClosed (digitPower.substitute s) := by
  intro u inside a b behind output joined
  rcases floorBegins_cases digitPower_insertsCalls joined output with
    ⟨t, word, rest, finds, same⟩ | ⟨u, rest, rfl, same, -, missed⟩
  · -- what has been inserted is a power
    obtain ⟨a', b', -, call⟩ := digitPower_finds_iff.1 finds
    rw [← List.cons_append, call, powerCall_eq, floorBegins_eq] at same
    exact absurd (congrArg (fun s => s[5]?) same) (by simp)
  · by_cases stops : Stops Char.isDigit rest
    · -- the parenthesis that closed it is kept
      have closed := h u _ a b rest rfl ⟨rfl, stops⟩
      obtain ⟨rest, rfl⟩ := List.head?_eq_some_iff.1 closed
      rw [Pattern.substitute_of_none (by rfl)] at same
      rw [← same]
      rfl
    · -- a power behind the digits would begin in them
      rcases digitPower_insertsCalls.substitute_cases rest with rfl | ⟨c, r, rfl, -, kept⟩ |
        ⟨word, r, finds, -⟩
      · exact absurd stops_nil stops
      · have front := joined.2
        rw [← same, kept] at front
        exact absurd (stops_cons_iff.2 (stops_cons_iff.1 front)) stops
      · obtain ⟨a', b', ⟨rfl, stopsBehind⟩, call⟩ := digitPower_finds_iff.1 finds
        have longer : Joined ['^'] (b.append a') b'
            (b.digits ++ (a'.digits ++ (['^'] ++ (b'.digits ++ r)))) r :=
          ⟨by simp [DigitRun.append], stopsBehind⟩
        exact absurd (digitPower_finds_iff.2 ⟨_, _, longer, rfl⟩) missed.not_finds

/-! ## Powers -/

theorem noPowers_digitPower (s : List Char) : NoPowers (digitPower.substitute s) := by
  rintro u c d v output ⟨left, right⟩
  rcases digitPower_insertsCalls.of_suffix ⟨u, output.symm⟩ with
    ⟨t, -, same⟩ | ⟨t, word, rest, x, finds, nonempty, part, same⟩
  · -- all three characters are kept, although they begin an occurrence
    have absent : 'M' ∉ [c, '^', d] := by
      simp only [List.mem_cons, List.not_mem_nil, or_false, not_or]
      refine ⟨?_, by decide, ?_⟩ <;> rintro rfl <;> contradiction
    obtain ⟨rest, rfl, -, clear⟩ := digitPower_insertsCalls.kept absent same.symm
    have joined : Joined ['^'] (.ofFront left []) (.ofFront right rest) ([c, '^', d] ++ rest)
        (rest.dropWhile Char.isDigit) :=
      ⟨by simp [DigitRun.ofFront], stops_dropWhile rest⟩
    exact (clear _ (by simp) (List.suffix_refl _)).not_finds
      (digitPower_finds_iff.2 ⟨_, _, joined, rfl⟩)
  · obtain ⟨a, b, -, call⟩ := digitPower_finds_iff.1 finds
    obtain ⟨-, rfl⟩ := List.cons.inj (call.trans (powerCall_eq _ _))
    match x, nonempty with
    | [e], _ =>
      -- the digit in front would be the end of the call
      obtain rfl : c = e := (List.cons.inj same).1
      rw [List.singleton_suffix_iff_getLast?_eq_some, (tame_call ',' a b (by decide)).2] at part
      cases part
      contradiction
    | e :: f :: x, _ =>
      obtain ⟨-, behind⟩ := List.cons.inj same
      obtain rfl : '^' = f := (List.cons.inj behind).1
      have inside : '^' ∈ "ath.pow(".toList ++ (a.digits ++ ',' :: (b.digits ++ [')'])) :=
        part.mem (by simp)
      simp [a.not_mem (c := '^') rfl, b.not_mem (c := '^') rfl] at inside

/-! ## Normal texts -/

/-- The result of the expansion is normal. -/
theorem isNormal_expand (s : List Char) : IsNormal (expand s) where
  singleSlashes := (singleSlashes_doubleSlash _).openFloor.digitPower
  floorsClosed := (floorsClosed_openFloor _).digitPower
  noPowers := noPowers_digitPower _

/-- In a normal text three of the patterns are not found, and the other one finds what it writes. -/
theorem expand_of_isNormal {s : List Char} (h : IsNormal s) : expand s = s := by
  have divisions : wholeDivision.substitute s = s := by
    refine Pattern.substitute_eq_self ?_
    rintro v ⟨u, rfl⟩ w rest finds
    obtain ⟨a, b, ⟨rfl, -⟩, -⟩ := wholeDivision_finds_iff.1 finds
    exact absurd (by simp) (h.singleSlashes (u ++ a.digits) (b.digits ++ rest))
  have slashes : doubleSlash.substitute s = s := by
    refine Pattern.substitute_eq_self ?_
    rintro v ⟨u, rfl⟩ w rest finds
    obtain ⟨rfl, -⟩ := doubleSlash_finds_iff.1 finds
    exact absurd rfl (h.singleSlashes u rest)
  have floors : openFloor.substitute s = s := by
    refine Pattern.substitute_eq_self ?_
    rintro v ⟨u, rfl⟩ w rest finds
    obtain ⟨a, b, inside, behind, rfl, joined, rfl, rfl⟩ := openFloor_finds_iff.1 finds
    have closed := h.floorsClosed u inside a b behind rfl joined
    obtain ⟨rest, rfl⟩ := List.head?_eq_some_iff.1 closed
    rw [joined.1, flooredQuotient, dropParenthesis]
    simp
  have powers : digitPower.substitute s = s := by
    refine Pattern.substitute_eq_self ?_
    rintro v ⟨u, rfl⟩ w rest finds
    obtain ⟨a, b, ⟨rfl, -⟩, -⟩ := digitPower_finds_iff.1 finds
    obtain ⟨x, c, shapeLeft, left⟩ := a.exists_eq_append
    obtain ⟨d, y, shapeRight, -⟩ := b.exists_eq_cons
    have right : d.isDigit = true := List.all_eq_true.1 b.all_isDigit d (by simp [shapeRight])
    refine absurd ⟨left, right⟩ (h.noPowers (u ++ x) c d (y ++ rest) ?_)
    rw [shapeLeft, shapeRight]
    simp
  rw [expand, divisions, slashes, floors, powers]

/-- A text without the letters of shorthand and calls is normal. -/
theorem isNormal_of_not_mem {s : List Char} (noSlash : '/' ∉ s) (noCaret : '^' ∉ s) :
    IsNormal s where
  singleSlashes u v shape := noSlash (by simp [shape])
  floorsClosed u inside a b v shape joined := absurd (by rw [shape, joined.1]; simp) noSlash
  noPowers u c d v shape := absurd (by simp [shape]) noCaret

end Shorthand

/-- Expansion reaches a normal form at once. Its result is always normal, and a normal text is all
that it leaves as it is; so to expand once more changes nothing, and a normal text is evaluated as
it is read. -/
theorem expand_reaches_normal_form (s : List Char) :
    Shorthand.IsNormal (Shorthand.expand s) ∧
    (Shorthand.expand s = s ↔ Shorthand.IsNormal s) ∧
    Shorthand.expand (Shorthand.expand s) = Shorthand.expand s ∧
    (Shorthand.IsNormal s → ∀ limit, evaluate limit s = readValue limit s) := by
  refine ⟨Shorthand.isNormal_expand s, ⟨?_, Shorthand.expand_of_isNormal⟩,
    Shorthand.expand_of_isNormal (Shorthand.isNormal_expand s), ?_⟩
  · intro same
    rw [← same]
    exact Shorthand.isNormal_expand s
  · intro normal limit
    rw [evaluate, Shorthand.expand_of_isNormal normal]

end Reckoner
