import Reckoner.Proofs.Grammar.Acceptance

/-!
# Expressions as they are written

A `Layout` is an expression with the parentheses of its text. `Expression.layout` puts in the
parentheses that precedence and grouping to the left call for and no others, `Layout.lexemes` writes
a layout as a sequence of lexemes, and `Spread` puts spaces between those.

What is written like that is derived by the grammar (`Layout.stands`), with the nesting of the
layout. The induction is on the layout, for everything that may follow it in a text: a chain goes on
behind its first operand, so the left operand of an operator is never a whole chain.
-/

namespace Reckoner

/-- Where a tree stands in a text. An expression can be a term, and a term a factor. -/
inductive Place where
  | expression
  | term
  | factor

/-- The place of a whole chain. -/
def Level.place : Level → Place
  | .additive => .expression
  | .multiplicative => .term

/-- The place of the operands of a chain. -/
def Level.operandPlace : Level → Place
  | .additive => .term
  | .multiplicative => .factor

/-- Whether an operator may stand at a place without parentheses around it and its operands. -/
def Place.admits : Place → Operator → Bool
  | .expression, _ => true
  | .term, op => op.level == .multiplicative
  | .factor, _ => false

/-- An expression with the parentheses of its text. -/
inductive Layout where
  | literal (numeral : Numeral)
  | signed (sign : Sign) (operand : Layout)
  | binary (operator : Operator) (left right : Layout)
  | floor (argument : Layout)
  | power (base exponent : Layout)
  | group (inner : Layout)

namespace Layout

/-- The expression without its parentheses. -/
def tree : Layout → Expression
  | .literal numeral => .literal numeral
  | .signed sign x => .signed sign x.tree
  | .binary op x y => .binary op x.tree y.tree
  | .floor x => .floor x.tree
  | .power x y => .power x.tree y.tree
  | .group x => x.tree

/-- The lexemes of a layout, in the order of the text. -/
def lexemes : Layout → List (List Char)
  | .literal numeral => [numeral.run]
  | .signed sign x => [sign.symbol] :: x.lexemes
  | .binary op x y => x.lexemes ++ [op.symbol] :: y.lexemes
  | .floor x => Builtin.floor.name :: ['('] :: (x.lexemes ++ [[')']])
  | .power x y =>
    Builtin.power.name :: ['('] :: (x.lexemes ++ [','] :: (y.lexemes ++ [[')']]))
  | .group x => ['('] :: (x.lexemes ++ [[')']])

/-- How deeply the factors of a layout nest. Everything but an operator makes a factor around its
parts. -/
def nesting : Layout → Nat
  | .literal _ => 1
  | .signed _ x => x.nesting + 1
  | .binary _ x y => max x.nesting y.nesting
  | .floor x => x.nesting + 1
  | .power x y => max x.nesting y.nesting + 1
  | .group x => x.nesting + 1

/-- Parentheses stand wherever the place of an operator asks for them. -/
def Fits : Layout → Place → Prop
  | .literal _, _ => True
  | .signed _ x, _ => x.Fits .factor
  | .binary op x y, place =>
    place.admits op = true ∧ x.Fits op.level.place ∧ y.Fits op.level.operandPlace
  | .floor x, _ => x.Fits .expression
  | .power x y, _ => x.Fits .expression ∧ y.Fits .expression
  | .group x, _ => x.Fits .expression

end Layout

/-- An expression with the least parentheses for a place. Grouping is to the left, so a right
operand is laid out for the tighter place. -/
def Expression.layout : Expression → Place → Layout
  | .literal numeral, _ => .literal numeral
  | .signed sign e, _ => .signed sign (e.layout .factor)
  | .binary op e f, place =>
    let whole := .binary op (e.layout op.level.place) (f.layout op.level.operandPlace)
    if place.admits op then whole else .group whole
  | .floor e, _ => .floor (e.layout .expression)
  | .power e f, _ => .power (e.layout .expression) (f.layout .expression)

theorem Expression.tree_layout (e : Expression) (place : Place) : (e.layout place).tree = e := by
  induction e generalizing place with
  | literal numeral => rfl
  | signed sign e ih => simp only [layout, Layout.tree, ih]
  | binary op e f ihLeft ihRight =>
    simp only [layout]
    split <;> simp only [Layout.tree, ihLeft, ihRight]
  | floor e ih => simp only [layout, Layout.tree, ih]
  | power e f ihBase ihExponent => simp only [layout, Layout.tree, ihBase, ihExponent]

theorem Expression.fits_layout (e : Expression) (place : Place) :
    (e.layout place).Fits place := by
  induction e generalizing place with
  | literal numeral => trivial
  | signed sign e ih => exact ih .factor
  | binary op e f ihLeft ihRight =>
    simp only [layout]
    split
    · rename_i admitted
      exact ⟨admitted, ihLeft _, ihRight _⟩
    · exact ⟨rfl, ihLeft _, ihRight _⟩
  | floor e ih => exact ih .expression
  | power e f ihBase ihExponent => exact ⟨ihBase .expression, ihExponent .expression⟩

/-- The lexemes one after the other, each behind any number of spaces. -/
inductive Spread : List (List Char) → List Char → Prop
  | nil : Spread [] []
  | cons {lexeme lexemes s} (n : Nat) : Spread lexemes s →
      Spread (lexeme :: lexemes) (List.replicate n ' ' ++ lexeme ++ s)

theorem Spread.flatten (lexemes : List (List Char)) : Spread lexemes lexemes.flatten := by
  induction lexemes with
  | nil => exact .nil
  | cons lexeme lexemes ih => exact .cons 0 ih

theorem Spread.exists_of_append {before after : List (List Char)} {s : List Char}
    (h : Spread (before ++ after) s) :
    ∃ u v, s = u ++ v ∧ Spread before u ∧ Spread after v := by
  induction before generalizing s with
  | nil => exact ⟨[], s, rfl, .nil, h⟩
  | cons lexeme before ih =>
    cases h with
    | cons n rest =>
      obtain ⟨u, v, rfl, spreadBefore, spreadAfter⟩ := ih rest
      exact ⟨_, v, (List.append_assoc _ u v).symm, .cons n spreadBefore, spreadAfter⟩

theorem Spread.exists_of_cons {lexeme s : List Char} {after : List (List Char)}
    (h : Spread (lexeme :: after) s) :
    ∃ n v, s = List.replicate n ' ' ++ lexeme ++ v ∧ Spread after v := by
  cases h with
  | cons n rest => exact ⟨n, _, rfl, rest⟩

/-- A symbol among lexemes divides the text. -/
theorem Spread.exists_of_append_symbol {before after : List (List Char)} {c : Char} {s : List Char}
    (h : Spread (before ++ [c] :: after) s) :
    ∃ u n v, s = u ++ (List.replicate n ' ' ++ c :: v) ∧ Spread before u ∧ Spread after v := by
  obtain ⟨u, w, rfl, spreadBefore, rest⟩ := h.exists_of_append
  obtain ⟨n, v, rfl, spreadAfter⟩ := rest.exists_of_cons
  exact ⟨u, n, v, by simp, spreadBefore, spreadAfter⟩

namespace Grammar

/-! ## What may follow -/

/-- A text can follow what stands at a place if it neither prolongs a number nor, behind an
expression, its last term. -/
def Follows (place : Place) (m : List Char) : Prop :=
  Stops isDigitOrDot m ∧
    match place with
    | .expression => ∀ op : Operator, op.level = .multiplicative → ¬ Next op.symbol m
    | .term | .factor => True

theorem stops_replicate_append {n : Nat} {m : List Char} (h : Stops isDigitOrDot m) :
    Stops isDigitOrDot (List.replicate n ' ' ++ m) := by
  cases n with
  | zero => exact h
  | succ n => exact stops_cons_iff.2 rfl

theorem not_next_replicate {c : Char} (noSpace : c ≠ ' ') (i : Nat) :
    ¬ Next c (List.replicate i ' ') := by
  rw [next_iff noSpace, blank_iff.1 ⟨i, rfl⟩]
  intro found
  obtain ⟨rest, ahead⟩ := found
  contradiction

/-- Behind spaces, only the first character of a text decides what follows. -/
theorem not_next_replicate_append {c d : Char} {n : Nat} {m : List Char} (noSpace : c ≠ ' ')
    (noSpace' : d ≠ ' ') (differ : d ≠ c) : ¬ Next c (List.replicate n ' ' ++ d :: m) := by
  rw [next_iff noSpace, skipSpaces_replicate_append, skipSpaces_of_ne noSpace']
  rintro ⟨rest, same⟩
  exact differ (List.cons.inj same).1

theorem follows_symbol (place : Place) {c : Char} (n : Nat) (m : List Char) (noSpace : c ≠ ' ')
    (noDigit : isDigitOrDot c = false)
    (noOperator : ∀ op : Operator, op.level = .multiplicative → c ≠ op.symbol) :
    Follows place (List.replicate n ' ' ++ c :: m) := by
  refine ⟨stops_replicate_append (stops_cons_iff.2 noDigit), ?_⟩
  cases place with
  | expression =>
    intro op ofLevel
    exact not_next_replicate_append op.symbol_ne_space noSpace (noOperator op ofLevel)
  | term => trivial
  | factor => trivial

/-- The left operand of an operator is followed by the operator. -/
theorem follows_operator (op : Operator) (n : Nat) (m : List Char) :
    Follows op.level.place (List.replicate n ' ' ++ op.symbol :: m) := by
  -- a term is followed by anything; an expression by a sum, but not by a product
  cases op
  case multiplication => exact ⟨stops_replicate_append (stops_cons_iff.2 rfl), trivial⟩
  case division => exact ⟨stops_replicate_append (stops_cons_iff.2 rfl), trivial⟩
  all_goals
    refine follows_symbol .expression n m (by simp [Operator.symbol]) rfl ?_
    intro other ofLevel
    cases other <;> simp [Operator.symbol, Operator.level] at ofLevel ⊢

theorem follows_replicate (place : Place) (n : Nat) : Follows place (List.replicate n ' ') := by
  refine ⟨?_, ?_⟩
  · have := stops_replicate_append (n := n) (stops_nil (p := isDigitOrDot))
    rwa [List.append_nil] at this
  · cases place with
    | expression =>
      intro op _
      exact not_next_replicate op.symbol_ne_space n
    | term => trivial
    | factor => trivial

/-! ## What stands at a place -/

/-- The text `u`, followed by `m`, writes the first operands of a chain, up to the tree `t`: the
chain goes on with whatever `m` goes on with. -/
def Heads (level : Level) (n : Nat) (u : List Char) (t : Expression) (m : List Char) : Prop :=
  ∀ k t' r, Derives k (.tail level t) m t' r → Derives (max n k) (.chain level) (u ++ m) t' r

/-- The text `u`, followed by `m`, writes the tree `t` at a place. -/
def Stands (place : Place) (n : Nat) (u : List Char) (t : Expression) (m : List Char) : Prop :=
  match place with
  | .expression => Heads .additive n u t m
  | .term => Heads .multiplicative n u t m
  | .factor => Derives n .factor (u ++ m) t m

section Standing

variable {n : Nat} {u m : List Char} {t : Expression} {level : Level} {place : Place}

theorem heads_of_operand (h : Derives n level.operand (u ++ m) t m) : Heads level n u t m := by
  intro k t' r tail
  exact .chain h tail

/-- Where no operator follows, the chain ends. -/
theorem Heads.derives (h : Heads level n u t m)
    (ends : ∀ op : Operator, op.level = level → ¬ Next op.symbol m) :
    Derives n (.chain level) (u ++ m) t m := by
  have whole := h 0 t m (.done ends)
  rwa [Nat.max_zero] at whole

theorem stands_of_factor (follows : Follows place m) (h : Derives n .factor (u ++ m) t m) :
    Stands place n u t m := by
  have term : Heads .multiplicative n u t m := heads_of_operand h
  cases place with
  | expression => exact heads_of_operand (term.derives follows.2)
  | term => exact term
  | factor => exact h

theorem stands_of_heads {op : Operator} (admitted : place.admits op = true)
    (follows : Follows place m) (h : Heads op.level n u t m) : Stands place n u t m := by
  cases place with
  | expression =>
    cases level : op.level with
    | additive => rwa [level] at h
    | multiplicative =>
      rw [level] at h
      exact heads_of_operand (h.derives follows.2)
  | term =>
    rw [eq_of_beq admitted] at h
    exact h
  | factor => exact absurd admitted Bool.false_ne_true

theorem heads_of_stands (h : Stands level.place n u t m) : Heads level n u t m := by
  cases level <;> exact h

theorem follows_operandPlace (level : Level) (follows : Follows place m) :
    Follows level.operandPlace m := by
  refine ⟨follows.1, ?_⟩
  cases level <;> trivial

theorem follows_of_admits {op : Operator} (admitted : place.admits op = true)
    (follows : Follows place m) : Follows op.level.place m := by
  cases h : op.level with
  | multiplicative => exact ⟨follows.1, trivial⟩
  | additive =>
    cases place with
    | expression => exact follows
    | term => simp [Place.admits, h] at admitted
    | factor => simp [Place.admits] at admitted

theorem derives_operand_of_stands (h : Stands level.operandPlace n u t m)
    (follows : Follows level.place m) : Derives n level.operand (u ++ m) t m := by
  cases level with
  | additive => exact Heads.derives h follows.2
  | multiplicative => exact h

/-- An operator takes the operands in front of it and one more behind it. -/
theorem Heads.operator {op : Operator} {j k : Nat} {v : List Char} {x y : Expression}
    (left : Heads op.level n u x (List.replicate j ' ' ++ op.symbol :: (v ++ m)))
    (right : Derives k op.level.operand (v ++ m) y m) :
    Heads op.level (max n k) (u ++ (List.replicate j ' ' ++ op.symbol :: v))
      (.binary op x y) m := by
  intro l t r tail
  have whole := left _ t r (.more rfl ⟨j, by simp⟩ right tail)
  simpa [Nat.max_assoc] using whole

/-- What stands as an expression in front of nothing but spaces is a whole text. -/
theorem Stands.writes {j : Nat} (h : Stands .expression n u t (List.replicate j ' ')) :
    Writes n (u ++ List.replicate j ' ') t := by
  refine ⟨List.replicate j ' ', Heads.derives h ?_, j, rfl⟩
  intro op _
  rw [next_iff op.symbol_ne_space, blank_iff.1 ⟨j, rfl⟩]
  simp

theorem Stands.writes_nil (h : Stands .expression n u t []) : Writes n u t := by
  have whole := Stands.writes (j := 0) h
  rwa [List.replicate_zero, List.append_nil] at whole

end Standing

/-- Lexemes that stand as an expression, whatever follows them. -/
def StandsAlone (n : Nat) (lexemes : List (List Char)) (t : Expression) : Prop :=
  ∀ u m, Spread lexemes u → Follows .expression m → Stands .expression n u t m

section Enclosing

variable {n k : Nat} {lexemes : List (List Char)} {t : Expression} {u v : List Char}

/-- An expression ends in front of a symbol that neither prolongs a number nor is an operator. -/
theorem StandsAlone.derives_symbol (h : StandsAlone n lexemes t) (spread : Spread lexemes u)
    {c : Char} (noSpace : c ≠ ' ') (noDigit : isDigitOrDot c = false)
    (noOperator : ∀ op : Operator, c ≠ op.symbol) :
    Derives n (.chain .additive) (u ++ (List.replicate k ' ' ++ c :: v)) t
      (List.replicate k ' ' ++ c :: v) := by
  have follows : Follows .expression (List.replicate k ' ' ++ c :: v) :=
    follows_symbol .expression k v noSpace noDigit fun op _ => noOperator op
  apply Heads.derives (h u _ spread follows)
  intro op _
  exact not_next_replicate_append op.symbol_ne_space noSpace (noOperator op)

/-- An expression ends in front of a closing parenthesis or a comma. -/
theorem StandsAlone.derives (h : StandsAlone n lexemes t) (spread : Spread lexemes u) {c : Char}
    (stop : c = ')' ∨ c = ',') :
    Derives n (.chain .additive) (u ++ (List.replicate k ' ' ++ c :: v)) t
      (List.replicate k ' ' ++ c :: v) := by
  apply h.derives_symbol spread
  · rcases stop with rfl | rfl <;> simp
  · rcases stop with rfl | rfl <;> rfl
  · intro op
    rcases stop with rfl | rfl <;> cases op <;> simp [Operator.symbol]

/-- Parentheses around what stands as an expression. -/
theorem StandsAlone.enclosed (h : StandsAlone n lexemes t) {s : List Char}
    (spread : Spread (['('] :: (lexemes ++ [[')']])) s) (m : List Char) :
    ∃ a rest, Token ['('] (s ++ m) a ∧ Derives n (.chain .additive) a t rest ∧
      Token [')'] rest m := by
  obtain ⟨i, w, rfl, behind⟩ := spread.exists_of_cons
  obtain ⟨u, k, v, rfl, inside, nothing⟩ := behind.exists_of_append_symbol
  cases nothing
  refine ⟨u ++ (List.replicate k ' ' ++ ')' :: m), List.replicate k ' ' ++ ')' :: m, ⟨i, by simp⟩,
    ?_, ⟨k, by simp⟩⟩
  exact h.derives inside (.inl rfl)

end Enclosing

/-- A layout that fits a place stands there, whatever may follow it. -/
theorem stands_of_fits (x : Layout) :
    ∀ place u m, x.Fits place → Spread x.lexemes u → Follows place m →
      Stands place x.nesting u x.tree m := by
  induction x with
  | literal numeral =>
    intro place u m _ spread follows
    obtain ⟨k, v, rfl, nothing⟩ := spread.exists_of_cons
    cases nothing
    exact stands_of_factor follows (.number ⟨k, by simp⟩ follows.1)
  | signed sign x ih =>
    intro place u m fits spread follows
    obtain ⟨k, v, rfl, spreadOperand⟩ := spread.exists_of_cons
    -- a factor may be followed by anything that does not prolong a number
    have operand : Derives x.nesting .factor (v ++ m) x.tree m :=
      ih .factor v m fits spreadOperand ⟨follows.1, trivial⟩
    exact stands_of_factor follows (.sign ⟨k, by simp⟩ operand)
  | group x ih =>
    intro place u m fits spread follows
    have inside : StandsAlone x.nesting x.lexemes x.tree := fun v m => ih .expression v m fits
    obtain ⟨a, rest, token, inner, closed⟩ := inside.enclosed spread m
    exact stands_of_factor follows (.group token inner (.inl closed))
  | floor x ih =>
    intro place u m fits spread follows
    have inside : StandsAlone x.nesting x.lexemes x.tree := fun v m => ih .expression v m fits
    obtain ⟨k, v, rfl, spreadCall⟩ := spread.exists_of_cons
    obtain ⟨a, rest, token, inner, closed⟩ := inside.enclosed spreadCall m
    have call := Derives.floorGroup token inner (.inl closed)
    exact stands_of_factor follows (.application ⟨k, by simp⟩ call)
  | power x y ihBase ihExponent =>
    intro place u m fits spread follows
    have base : StandsAlone x.nesting x.lexemes x.tree := fun v m => ihBase .expression v m fits.1
    have exponent : StandsAlone y.nesting y.lexemes y.tree :=
      fun v m => ihExponent .expression v m fits.2
    obtain ⟨k, w, rfl, spreadCall⟩ := spread.exists_of_cons
    obtain ⟨i, w, rfl, spreadArguments⟩ := spreadCall.exists_of_cons
    obtain ⟨u, j, w, rfl, spreadBase, spreadRest⟩ := spreadArguments.exists_of_append_symbol
    obtain ⟨v, l, w, rfl, spreadExponent, nothing⟩ := spreadRest.exists_of_append_symbol
    cases nothing
    have derivesExponent : Derives y.nesting (.chain .additive)
        (v ++ (List.replicate l ' ' ++ ')' :: m)) y.tree (List.replicate l ' ' ++ ')' :: m) :=
      exponent.derives spreadExponent (.inl rfl)
    have derivesBase : Derives x.nesting (.chain .additive)
        (u ++ (List.replicate j ' ' ++ ',' :: (v ++ (List.replicate l ' ' ++ ')' :: m)))) x.tree
        (List.replicate j ' ' ++ ',' :: (v ++ (List.replicate l ' ' ++ ')' :: m))) :=
      base.derives spreadBase (.inr rfl)
    have closes : Closes (List.replicate l ' ' ++ ')' :: m) m := .inl ⟨l, by simp⟩
    have call := Derives.powerPair ⟨i, rfl⟩ derivesBase ⟨j, by simp⟩ derivesExponent closes
    exact stands_of_factor follows (.application ⟨k, by simp⟩ call)
  | binary op x y ihLeft ihRight =>
    intro place u m fits spread follows
    obtain ⟨admitted, fitsLeft, fitsRight⟩ := fits
    obtain ⟨u, k, v, rfl, spreadLeft, spreadRight⟩ := spread.exists_of_append_symbol
    -- the left operand only begins the chain, whose next operand is the right one
    have left : Heads op.level x.nesting u x.tree (List.replicate k ' ' ++ op.symbol :: (v ++ m)) :=
      heads_of_stands (ihLeft _ u _ fitsLeft spreadLeft (follows_operator op k (v ++ m)))
    have right : Derives y.nesting op.level.operand (v ++ m) y.tree m :=
      derives_operand_of_stands
        (ihRight _ v m fitsRight spreadRight (follows_operandPlace op.level follows))
        (follows_of_admits admitted follows)
    exact stands_of_heads admitted follows (left.operator right)

/-- A layout that fits an expression writes its tree, with any number of spaces before each lexeme
and at the end. -/
theorem writes_of_fits {x : Layout} (fits : x.Fits .expression) {s : List Char}
    (spread : Spread x.lexemes s) (n : Nat) :
    Writes x.nesting (s ++ List.replicate n ' ') x.tree := by
  have stands : Stands .expression x.nesting s x.tree (List.replicate n ' ') :=
    stands_of_fits x .expression s _ fits spread (follows_replicate .expression n)
  exact stands.writes

end Grammar

end Reckoner
