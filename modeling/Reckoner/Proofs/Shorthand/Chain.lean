import Reckoner.Evaluation
import Reckoner.Proofs.Shorthand.Locality

/-!
# Chains of shorthand

`a//b//c`, `a^b^c` and all longer mixtures are refused. Whichever pairs of operands the
substitutions take together, the first two operators decide: of the chain as it is written out, only
the front needs to be known (`exists_expand_chain`), which is an expression with something behind it
that cannot go on with one.
-/

namespace Reckoner

namespace Shorthand

/-- An operator of shorthand. -/
inductive Link where
  | wholeDivision
  | power
deriving DecidableEq, Repr

/-- How the operator is typed. -/
def Link.symbol : Link → List Char
  | .wholeDivision => ['/', '/']
  | .power => ['^']

/-- Runs of digits with an operator in front of each. -/
def links (more : List (Link × DigitRun)) : List Char :=
  more.flatMap fun link => link.1.symbol ++ link.2.digits

/-- A run of digits and further ones, joined by operators of shorthand. -/
def chain (a : DigitRun) (more : List (Link × DigitRun)) : List Char := a.digits ++ links more

theorem stops_symbol (o : Link) (s : List Char) : Stops Char.isDigit (o.symbol ++ s) := by
  cases o <;> exact stops_cons_iff.2 rfl

theorem stops_links (more : List (Link × DigitRun)) : Stops Char.isDigit (links more) := by
  cases more with
  | nil => exact stops_nil
  | cons link more =>
    rw [links, List.flatMap_cons, List.append_assoc]
    exact stops_symbol link.1 _

/-! ## Floored quotients -/

theorem flooredQuotient_eq_concat (a b : List Char) :
    flooredQuotient a b = floorBegins ++ a ++ '/' :: b ++ [')'] := by
  simp [flooredQuotient]

/-- What becomes of a floored quotient does not depend on what follows, because the search begins
anew behind its parenthesis. -/
theorem substitute_flooredQuotient {pattern : Pattern} {after : Spelling}
    (divides : Divides ')' pattern) (respells : Respells pattern .halfWritten after)
    (a b : DigitRun) (s : List Char) :
    pattern.substitute (flooredQuotient a.digits b.digits ++ s) =
      after.wholeDivision a b ++ pattern.substitute s := by
  have alone : pattern.substitute (flooredQuotient a.digits b.digits ++ []) =
      after.wholeDivision a b ++ pattern.substitute [] := respells.wholeDivision a b [] .nil
  rw [List.append_nil, Pattern.substitute_nil, List.append_nil, flooredQuotient_eq_concat] at alone
  rw [flooredQuotient_eq_concat, divides.substitute_append_concat, alone]

theorem doubleSlash_substitute_flooredQuotient (a b : DigitRun) (s : List Char) :
    doubleSlash.substitute (flooredQuotient a.digits b.digits ++ s) =
      flooredQuotient a.digits b.digits ++ doubleSlash.substitute s :=
  substitute_flooredQuotient (divides_doubleSlash (by simp)) doubleSlash_respells a b s

theorem digitPower_substitute_flooredQuotient (a b : DigitRun) (s : List Char) :
    digitPower.substitute (flooredQuotient a.digits b.digits ++ s) =
      flooredQuotient a.digits b.digits ++ digitPower.substitute s :=
  substitute_flooredQuotient (divides_digitPower rfl (by simp)) digitPower_respells a b s

/-- The parenthesis belongs to what this pattern finds. -/
theorem openFloor_substitute_flooredQuotient (a b : DigitRun) (s : List Char) :
    openFloor.substitute (flooredQuotient a.digits b.digits ++ s) =
      flooredQuotient a.digits b.digits ++ openFloor.substitute s := by
  have joined : Joined ['/'] a b (a.digits ++ (['/'] ++ (b.digits ++ ')' :: s))) (')' :: s) :=
    ⟨rfl, stops_cons_iff.2 rfl⟩
  exact Pattern.substitute_of_found
    (openFloor_finds_iff.2 ⟨a, b, _, _, by simp [flooredQuotient], joined, rfl, rfl⟩)

/-! ## Whole divisions written out -/

/-- The text with its whole divisions written out. The powers are what remains. -/
def expandDivisions (s : List Char) : List Char :=
  openFloor.substitute (doubleSlash.substitute (wholeDivision.substitute s))

theorem expand_eq (s : List Char) : expand s = digitPower.substitute (expandDivisions s) := rfl

theorem expandDivisions_append_caret (u s : List Char) :
    expandDivisions (u ++ '^' :: s) = expandDivisions u ++ '^' :: expandDivisions s := by
  rw [expandDivisions, (divides_wholeDivision rfl (by simp)).substitute_append,
    (divides_doubleSlash (by simp)).substitute_append,
    (divides_openFloor rfl (by simp) (by simp) (by decide)).substitute_append]
  rfl

theorem expandDivisions_caret (s : List Char) :
    expandDivisions ('^' :: s) = '^' :: expandDivisions s := by
  have nothing : expandDivisions [] = [] := by simp [expandDivisions]
  have behind := expandDivisions_append_caret [] s
  rwa [nothing] at behind

theorem expandDivisions_digits (a : DigitRun) : expandDivisions a.digits = a.digits := by
  have noSlash : '/' ∉ a.digits := a.not_mem rfl
  rw [expandDivisions, wholeDivision_spares.substitute_eq_self noSlash,
    doubleSlash_spares.substitute_eq_self noSlash,
    openFloor_spares.substitute_eq_self (a.not_mem rfl)]

theorem expandDivisions_quotient (a b : DigitRun) {s : List Char} (stops : Stops Char.isDigit s) :
    expandDivisions (a.digits ++ (['/', '/'] ++ (b.digits ++ s))) =
      flooredQuotient a.digits b.digits ++ expandDivisions s := by
  have found := wholeDivision_finds_iff.2 ⟨a, b, ⟨rfl, stops⟩, rfl⟩
  rw [expandDivisions, Pattern.substitute_of_found found,
    doubleSlash_substitute_flooredQuotient, openFloor_substitute_flooredQuotient]
  rfl

/-- Without an operand in front of it, a double slash opens a call all the same. -/
theorem exists_expandDivisions_slashes (s : List Char) :
    ∃ t, expandDivisions ('/' :: '/' :: s) = 'M' :: t := by
  have missed (r : List Char) : wholeDivision ('/' :: r) = none :=
    wholeDivision_eq_none_of_stops (stops_cons_iff.2 rfl)
  have found (r : List Char) : doubleSlash.Finds ('/' :: '/' :: r) floorBegins r :=
    doubleSlash_finds_iff.2 ⟨rfl, rfl⟩
  rw [expandDivisions, Pattern.substitute_of_none (missed _), Pattern.substitute_of_none (missed _),
    Pattern.substitute_of_found (found _), floorBegins_eq]
  exact openFloor_insertsCalls.exists_substitute_capital _

/-! ## Powers written out -/

theorem digitPower_substitute_cons {c : Char} (noDigit : c.isDigit = false) (s : List Char) :
    digitPower.substitute (c :: s) = c :: digitPower.substitute s :=
  Pattern.substitute_of_none (digitPower_eq_none_of_stops (stops_cons_iff.2 noDigit))

theorem digitPower_substitute_power (a b : DigitRun) {s : List Char}
    (stops : Stops Char.isDigit s) :
    digitPower.substitute (a.digits ++ (['^'] ++ (b.digits ++ s))) =
      powerCall a.digits b.digits ++ digitPower.substitute s :=
  Pattern.substitute_of_found (digitPower_finds_iff.2 ⟨a, b, ⟨rfl, stops⟩, rfl⟩)

/-- A caret with no digit behind it is kept, and the digits in front of it. -/
theorem digitPower_substitute_caret (a : DigitRun) {s : List Char} (stops : Stops Char.isDigit s) :
    digitPower.substitute (a.digits ++ '^' :: s) = a.digits ++ '^' :: digitPower.substitute s := by
  rw [← digitPower_substitute_cons rfl]
  refine Pattern.substitute_append_of_misses fun x _ suffix => Pattern.misses_iff.2 ?_
  intro replacement rest finds
  obtain ⟨a', b, ⟨shape, -⟩, -⟩ := digitPower_finds_iff.1 finds
  -- the caret ends the digits in front of it, so what follows it would be the exponent
  have digits : x.all Char.isDigit = true :=
    List.all_eq_true.2 fun c member => List.all_eq_true.1 a.all_isDigit c (suffix.mem member)
  have ends (r : List Char) : Stops Char.isDigit ('^' :: r) := stops_cons_iff.2 rfl
  have exponent : '^' :: s = '^' :: (b.digits ++ rest) := by
    calc '^' :: s = (x ++ '^' :: s).dropWhile Char.isDigit :=
          (dropWhile_append_of_stops digits (ends s)).symm
      _ = (a'.digits ++ '^' :: (b.digits ++ rest)).dropWhile Char.isDigit := by rw [shape]; rfl
      _ = '^' :: (b.digits ++ rest) := dropWhile_append_of_stops a'.all_isDigit (ends _)
  rw [(List.cons.inj exponent).2] at stops
  exact b.not_stops_append rest stops

/-! ## The front of a chain -/

/-- What an operator begins with, as it is written out, where no operand in front of it is left. -/
def Link.lead : Link → Char
  | .wholeDivision => 'M'
  | .power => '^'

theorem exists_expand_symbol (o : Link) (s : List Char) :
    ∃ t, expand (o.symbol ++ s) = o.lead :: t := by
  cases o with
  | wholeDivision =>
    obtain ⟨t, written⟩ := exists_expandDivisions_slashes s
    refine ⟨digitPower.substitute t, ?_⟩
    rw [expand_eq, Link.symbol, List.cons_append, List.cons_append, List.nil_append, written]
    exact digitPower_substitute_cons rfl t
  | power =>
    refine ⟨digitPower.substitute (expandDivisions s), ?_⟩
    rw [expand_eq, Link.symbol, List.cons_append, List.nil_append, expandDivisions_caret]
    exact digitPower_substitute_cons rfl _

/-- The front of a chain, as it is written out: with the first pair of operands if it is a call of
its own, and without the second operand if a whole division takes that. -/
def front : Link → Link → DigitRun → DigitRun → Formula
  | .wholeDivision, _, a, b => .wholeDivision a b
  | .power, .power, a, b => .power a b
  | .power, .wholeDivision, a, _ => .literal a.numeral

/-- What stands behind the front of a chain. -/
def obstacle (o p : Link) : Char :=
  if o = .wholeDivision ∧ p = .wholeDivision then 'M' else '^'

theorem exists_expand_chain (o p : Link) (a b c : DigitRun) (more : List (Link × DigitRun)) :
    ∃ t, expand (chain a ((o, b) :: (p, c) :: more)) =
      (front o p a b).write .written ++ obstacle o p :: t := by
  have text : chain a ((o, b) :: (p, c) :: more) =
      a.digits ++ (o.symbol ++ (b.digits ++ (p.symbol ++ (c.digits ++ links more)))) := by
    simp [chain, links]
  rw [text]
  cases o with
  | wholeDivision =>
    obtain ⟨t, behind⟩ := exists_expand_symbol p (c.digits ++ links more)
    refine ⟨t, ?_⟩
    rw [Link.symbol, expand_eq, expandDivisions_quotient a b (stops_symbol p _),
      digitPower_substitute_flooredQuotient, ← expand_eq, behind]
    cases p <;> rfl
  | power =>
    rw [Link.symbol, expand_eq, List.singleton_append, expandDivisions_append_caret,
      expandDivisions_digits]
    cases p with
    | wholeDivision =>
      rw [Link.symbol, expandDivisions_quotient b c (stops_links more), flooredQuotient_eq]
      exact ⟨_, digitPower_substitute_caret a (stops_cons_iff.2 rfl)⟩
    | power =>
      rw [Link.symbol, List.singleton_append, expandDivisions_append_caret, expandDivisions_digits]
      have written := digitPower_substitute_power a b
        (s := '^' :: expandDivisions (c.digits ++ links more)) (stops_cons_iff.2 rfl)
      rw [digitPower_substitute_cons rfl] at written
      exact ⟨_, written⟩

/-- The front of a chain needs no parentheses. -/
theorem fits_layout_front (o p : Link) (a b : DigitRun) :
    (front o p a b).layout.Fits .expression := by
  cases o with
  | wholeDivision => exact ⟨rfl, ⟨rfl, trivial, trivial⟩, trivial⟩
  | power => cases p <;> simp [front, Formula.layout, Layout.Fits]

theorem nesting_layout_front_le (o p : Link) (a b : DigitRun) :
    (front o p a b).layout.nesting ≤ 2 := by
  cases o <;> cases p <;> simp [front, Formula.layout, Layout.nesting]

end Shorthand

/-- A formula without spaces is derived in front of a symbol that cannot go on with it. -/
theorem Formula.derives_write {f : Formula} (fits : f.layout.Fits .expression) {c : Char}
    (noSpace : c ≠ ' ') (noDigit : isDigitOrDot c = false)
    (noOperator : ∀ op : Operator, c ≠ op.symbol) (s : List Char) :
    Grammar.Derives f.layout.nesting (.chain .additive) (f.write .written ++ c :: s) f.layout.tree
      (c :: s) := by
  have alone : Grammar.StandsAlone f.layout.nesting f.layout.lexemes f.layout.tree :=
    fun u m => Grammar.stands_of_fits f.layout .expression u m fits
  have spread : Spread f.layout.lexemes (f.write .written) := by
    rw [← flatten_lexemes_layout]
    exact .flatten _
  exact alone.derives_symbol (k := 0) spread noSpace noDigit noOperator

/-- A chain of three or more runs of digits is refused behind its front: for the call that the
second operator is written out as, if the first two are both whole divisions, and for the caret that
is left otherwise. -/
theorem evaluate_chain {limit : Nat} (room : 2 ≤ limit) (o p : Shorthand.Link) (a b c : DigitRun)
    (more : List (Shorthand.Link × DigitRun)) :
    evaluate limit (Shorthand.chain a ((o, b) :: (p, c) :: more)) =
      .error (.trailingInput (if o = .wholeDivision ∧ p = .wholeDivision then 'M' else '^')) := by
  obtain ⟨t, written⟩ := Shorthand.exists_expand_chain o p a b c more
  have noSpace : Shorthand.obstacle o p ≠ ' ' := by cases o <;> cases p <;> decide
  have derives := Formula.derives_write (Shorthand.fits_layout_front o p a b) noSpace
    (by cases o <;> cases p <;> rfl) (by cases o <;> cases p <;> rintro ⟨_⟩ <;> decide) t
  have le := Nat.le_trans (Shorthand.nesting_layout_front_le o p a b) room
  rw [evaluate, written]
  exact readValue_of_derives_trailing derives le (skipSpaces_of_ne noSpace t)

/-- Two whole divisions in front, and then a power, which does not help. -/
theorem evaluate_chain_divisions :
    2 ≤ 2 ∧ evaluate 2 "1//20//3^4".toList = .error (.trailingInput 'M') ∧
      evaluate 2 "2^3//4".toList = .error (.trailingInput '^') := by
  have refused := evaluate_chain (Nat.le_refl 2) .wholeDivision .wholeDivision
    ⟨['1'], by simp, rfl⟩ ⟨['2', '0'], by simp, rfl⟩ ⟨['3'], by simp, rfl⟩
    [(.power, ⟨['4'], by simp, rfl⟩)]
  have mixed := evaluate_chain (Nat.le_refl 2) .power .wholeDivision
    ⟨['2'], by simp, rfl⟩ ⟨['3'], by simp, rfl⟩ ⟨['4'], by simp, rfl⟩ []
  exact ⟨Nat.le_refl 2, refused, mixed⟩

end Reckoner
