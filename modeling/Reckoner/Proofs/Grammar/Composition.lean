import Reckoner.Proofs.Grammar.Layout

/-!
# Texts that compose

A closing parenthesis may be missing, so a text that is read by itself can take in what is put
behind it: `(1` reads as one, and in `((1)` the closing parenthesis belongs to the inner one. Where
a text has as many closing parentheses as opening ones this does not happen. Along a derivation the
excess of opening parentheses in the rest of the text never grows (`excess_le_of_derives`), and it
drops by each one that stays open. If it does not drop, none is open, and the derivation stands
unchanged in front of a closing parenthesis or a comma (`Derives.append`).
-/

namespace Reckoner

/-- By how much the opening parentheses of a text outnumber the closing ones. -/
def excess (s : List Char) : Int := s.count '(' - s.count ')'

theorem excess_append (s t : List Char) : excess (s ++ t) = excess s + excess t := by
  unfold excess
  rw [List.count_append, List.count_append]
  omega

theorem excess_eq_zero {s : List Char} (opening : '(' ∉ s) (closing : ')' ∉ s) : excess s = 0 := by
  rw [excess, List.count_eq_zero.2 opening, List.count_eq_zero.2 closing]
  rfl

@[simp] theorem excess_replicate (n : Nat) : excess (List.replicate n ' ') = 0 :=
  excess_eq_zero (by simp [List.mem_replicate]) (by simp [List.mem_replicate])

@[simp] theorem excess_opening : excess ['('] = 1 := rfl

@[simp] theorem excess_closing : excess [')'] = -1 := rfl

@[simp] theorem excess_comma : excess [','] = 0 := rfl

@[simp] theorem excess_operator (op : Operator) : excess [op.symbol] = 0 := by cases op <;> rfl

@[simp] theorem excess_sign (mark : Sign) : excess [mark.symbol] = 0 := by cases mark <;> rfl

@[simp] theorem excess_name (function : Builtin) : excess function.name = 0 := by
  cases function <;> decide

@[simp] theorem excess_run (numeral : Numeral) : excess numeral.run = 0 := by
  have all := List.all_eq_true.1 numeral.all_isDigitOrDot
  refine excess_eq_zero (fun member => ?_) (fun member => ?_)
  · exact absurd (all _ member) (by decide)
  · exact absurd (all _ member) (by decide)

theorem excess_of_token {word s r : List Char} (h : Token word s r) :
    excess s = excess word + excess r := by
  obtain ⟨n, rfl⟩ := h
  rw [excess_append, excess_append, excess_replicate, Int.zero_add]

theorem excess_of_neutral {word s r : List Char} (neutral : excess word = 0) (h : Token word s r) :
    excess s = excess r := by
  rw [excess_of_token h, neutral, Int.zero_add]

theorem excess_of_opening {s r : List Char} (h : Token ['('] s r) : excess s = excess r + 1 := by
  rw [excess_of_token h, excess_opening, Int.add_comm]

theorem excess_of_closing {s r : List Char} (h : Token [')'] s r) : excess r = excess s + 1 := by
  rw [excess_of_token h, excess_closing]
  omega

/-- A text between parentheses. -/
def enclosed (s : List Char) : List Char := '(' :: (s ++ [')'])

theorem Token.append {word s r : List Char} (h : Token word s r) (k : List Char) :
    Token word (s ++ k) (r ++ k) := by
  obtain ⟨n, rfl⟩ := h
  exact ⟨n, List.append_assoc _ r k⟩

namespace Grammar

variable {n : Nat} {part : Part} {s r : List Char} {t : Expression}

theorem excess_le_of_closes (h : Closes s r) : excess r ≤ excess s + 1 := by
  rcases h with closed | ⟨-, rfl⟩
  · exact Int.le_of_eq (excess_of_closing closed)
  · omega

/-- Whatever is derived, the excess of opening parentheses does not grow: each one that is taken
lowers it by one, and its closing one raises it again or is missing. -/
theorem excess_le_of_derives (h : Derives n part s t r) : excess r ≤ excess s := by
  induction h with
  | chain _ _ operand tail => omega
  | done _ => exact Int.le_refl _
  | more _ token _ _ operand tail =>
    have taken := excess_of_neutral (excess_operator _) token
    omega
  | number token _ =>
    have taken := excess_of_neutral (excess_run _) token
    omega
  | sign token _ operand =>
    have taken := excess_of_neutral (excess_sign _) token
    omega
  | group token _ closes inner =>
    have opened := excess_of_opening token
    have closed := excess_le_of_closes closes
    omega
  | application token _ call =>
    have taken := excess_of_neutral (excess_name _) token
    omega
  | floorGroup token _ closes argument =>
    have opened := excess_of_opening token
    have closed := excess_le_of_closes closes
    omega
  | floorFactor _ _ argument => exact argument
  | powerPair token _ comma _ closes base exponent =>
    have opened := excess_of_opening token
    have separated := excess_of_neutral excess_comma comma
    have closed := excess_le_of_closes closes
    omega
  | powerGroup token _ _ closes _ base exponent =>
    have opened := excess_of_opening token
    have closed := excess_le_of_closes closes
    omega
  | powerFactors _ _ _ base exponent => omega

/-- Parentheses that leave no excess behind them leave none inside, and the closing one is there. -/
theorem closed_of_excess_le {a rest : List Char} (opened : Token ['('] s a)
    (inner : excess rest ≤ excess a) (closes : Closes rest r) (balanced : excess s ≤ excess r) :
    excess a ≤ excess rest ∧ Token [')'] rest r := by
  have taken := excess_of_opening opened
  rcases closes with closed | ⟨-, rfl⟩
  · have given := excess_of_closing closed
    exact ⟨by omega, closed⟩
  -- without it the excess has dropped
  · omega

/-! ## Text put behind a derivation -/

/-- The text begins with a closing parenthesis or a comma. -/
def Halts (k : List Char) : Prop := ∃ c m, k = c :: m ∧ (c = ')' ∨ c = ',')

theorem Halts.stops {k : List Char} (h : Halts k) : Stops isDigitOrDot k := by
  obtain ⟨c, m, rfl, rfl | rfl⟩ := h <;> exact stops_cons_iff.2 rfl

/-- A symbol that is not next in a text is not next in front of more text, unless it begins that. -/
theorem not_next_append {c : Char} {s k : List Char} (h : ¬ Next c s) (noSpace : c ≠ ' ')
    (halts : Halts k) (other : c ≠ ')' ∧ c ≠ ',') : ¬ Next c (s ++ k) := by
  obtain ⟨n, shape⟩ := exists_eq_replicate_append_skipSpaces s
  rw [next_iff noSpace] at h ⊢
  rw [shape, List.append_assoc, skipSpaces_replicate_append]
  rintro ⟨rest, ahead⟩
  -- what is next is found in `s`, or, if that is blank, it is the first character of `k`
  cases behind : skipSpaces s with
  | nil =>
    obtain ⟨d, m, rfl, stop⟩ := halts
    have noSpace' : d ≠ ' ' := by rcases stop with rfl | rfl <;> simp
    rw [behind, List.nil_append, skipSpaces_of_ne noSpace'] at ahead
    cases ahead
    rcases stop with rfl | rfl
    · exact other.1 rfl
    · exact other.2 rfl
  | cons d v =>
    rw [behind, List.cons_append, skipSpaces_of_ne (ne_space_of_skipSpaces_eq_cons behind)] at ahead
    cases ahead
    exact h ⟨v, behind⟩

/-- Where no parenthesis is left open, a derivation stands unchanged in front of a closing
parenthesis or a comma. Each part leaves none open either, because the excess never grows. -/
theorem Derives.append (h : Derives n part s t r) {k : List Char} (halts : Halts k)
    (balanced : excess s ≤ excess r) : Derives n part (s ++ k) t (r ++ k) := by
  induction h with
  | chain derivesFirst derivesTail operand tail =>
    have first := excess_le_of_derives derivesFirst
    have last := excess_le_of_derives derivesTail
    exact .chain (operand (by omega)) (tail (by omega))
  | done ends =>
    refine .done fun op ofLevel => ?_
    exact not_next_append (ends op ofLevel) op.symbol_ne_space halts
      (by cases op <;> simp [Operator.symbol])
  | more ofLevel token derivesRight derivesTail operand tail =>
    have taken := excess_of_neutral (excess_operator _) token
    have right := excess_le_of_derives derivesRight
    have last := excess_le_of_derives derivesTail
    exact .more ofLevel (token.append k) (operand (by omega)) (tail (by omega))
  | number token stops => exact .number (token.append k) (stops.append halts.stops)
  | sign token _ operand =>
    have taken := excess_of_neutral (excess_sign _) token
    exact .sign (token.append k) (operand (by omega))
  | group token derivesInner closes inner =>
    obtain ⟨inside, closed⟩ :=
      closed_of_excess_le token (excess_le_of_derives derivesInner) closes balanced
    exact .group (token.append k) (inner inside) (.inl (closed.append k))
  | application token _ call =>
    have taken := excess_of_neutral (excess_name _) token
    exact .application (token.append k) (call (by omega))
  | floorGroup token derivesArgument closes argument =>
    obtain ⟨inside, closed⟩ :=
      closed_of_excess_le token (excess_le_of_derives derivesArgument) closes balanced
    exact .floorGroup (token.append k) (argument inside) (.inl (closed.append k))
  | floorFactor noGroup _ argument =>
    exact .floorFactor (not_next_append noGroup (by simp) halts (by simp)) (argument balanced)
  | powerPair token derivesBase comma derivesExponent closes base exponent =>
    have separated := excess_of_neutral excess_comma comma
    have first := excess_le_of_derives derivesBase
    have second := excess_le_of_derives derivesExponent
    obtain ⟨inside, closed⟩ := closed_of_excess_le token (by omega) closes balanced
    exact .powerPair (token.append k) (base (by omega)) (comma.append k) (exponent (by omega))
      (.inl (closed.append k))
  | @powerGroup _ _ _ _ _ _ _ rest _ token derivesBase _ closes derivesExponent base exponent =>
    have first := excess_le_of_derives derivesBase
    have second := excess_le_of_derives derivesExponent
    obtain ⟨inside, closed⟩ :=
      closed_of_excess_le token first closes (Int.le_trans balanced second)
    -- behind the base stands its closing parenthesis, so no comma, whatever is put behind
    have noComma : ¬ Next ',' (rest ++ k) := by
      rw [next_iff (by simp), (token_singleton_iff (by simp)).1 (closed.append k)]
      simp
    have given := excess_of_closing closed
    have taken := excess_of_opening token
    exact .powerGroup (token.append k) (base inside) noComma (.inl (closed.append k))
      (exponent (by omega))
  | powerFactors noGroup derivesBase derivesExponent base exponent =>
    have first := excess_le_of_derives derivesBase
    have second := excess_le_of_derives derivesExponent
    exact .powerFactors (not_next_append noGroup (by simp) halts (by simp)) (base (by omega))
      (exponent (by omega))

/-! ## Complete texts -/

/-- A whole text that leaves no parenthesis open. -/
structure Complete (n : Nat) (s : List Char) (t : Expression) : Prop where
  writes : Writes n s t
  balanced : s.count ')' = s.count '('

namespace Complete

variable {n k : Nat} {x y : List Char} {t u : Expression}

/-- A complete text ends where it ends, if a closing parenthesis or a comma follows. -/
theorem derives (h : Complete n x t) {m : List Char} (halts : Halts m) :
    ∃ i, Derives n (.chain .additive) (x ++ m) t (List.replicate i ' ' ++ m) := by
  obtain ⟨_, derives, i, rfl⟩ := h.writes
  -- nothing but spaces is left over, and those have no excess
  have none : excess x = 0 := by
    rw [excess, h.balanced]
    omega
  have balanced : excess x ≤ excess (List.replicate i ' ') := by simp [none]
  exact ⟨i, derives.append halts balanced⟩

theorem group (h : Complete n x t) (m : List Char) :
    Derives (n + 1) .factor (enclosed x ++ m) t m := by
  obtain ⟨i, inner⟩ := h.derives (m := ')' :: m) ⟨_, m, rfl, .inl rfl⟩
  exact .group ⟨0, by simp [enclosed]⟩ inner (.inl ⟨i, by simp⟩)

theorem floor (h : Complete n x t) (m : List Char) :
    Derives (n + 1) .factor (Builtin.floor.name ++ enclosed x ++ m) (.floor t) m := by
  obtain ⟨i, argument⟩ := h.derives (m := ')' :: m) ⟨_, m, rfl, .inl rfl⟩
  have call : Derives n (.call .floor) (enclosed x ++ m) (.floor t) m :=
    .floorGroup ⟨0, by simp [enclosed]⟩ argument (.inl ⟨i, by simp⟩)
  exact .application ⟨0, by simp⟩ call

theorem powerPair (h : Complete n x t) (h' : Complete k y u) (m : List Char) :
    Derives (max n k + 1) .factor
      (Builtin.power.name ++ '(' :: (x ++ ',' :: (y ++ [')'])) ++ m) (.power t u) m := by
  obtain ⟨i, base⟩ := h.derives (m := ',' :: (y ++ ')' :: m)) ⟨_, _, rfl, .inr rfl⟩
  obtain ⟨j, exponent⟩ := h'.derives (m := ')' :: m) ⟨_, m, rfl, .inl rfl⟩
  have call : Derives (max n k) (.call .power) ('(' :: (x ++ ',' :: (y ++ ')' :: m)))
      (.power t u) m :=
    .powerPair ⟨0, rfl⟩ base ⟨i, by simp⟩ exponent (.inl ⟨j, by simp⟩)
  exact .application ⟨0, by simp⟩ call

theorem powerGroups (h : Complete n x t) (h' : Complete k y u) (m : List Char) :
    Derives (max n (k + 1) + 1) .factor
      (Builtin.power.name ++ enclosed x ++ enclosed y ++ m) (.power t u) m := by
  obtain ⟨i, base⟩ := h.derives (m := ')' :: (enclosed y ++ m)) ⟨_, _, rfl, .inl rfl⟩
  have noComma : ¬ Next ',' (List.replicate i ' ' ++ ')' :: (enclosed y ++ m)) :=
    not_next_replicate_append (by simp) (by simp) (by simp)
  have call : Derives (max n (k + 1)) (.call .power) (enclosed x ++ (enclosed y ++ m))
      (.power t u) m :=
    .powerGroup ⟨0, by simp [enclosed]⟩ base noComma (.inl ⟨i, by simp⟩) (h'.group m)
  exact .application ⟨0, by simp⟩ call

theorem operator (op : Operator) (h : Complete n x t) (h' : Complete k y u) :
    Writes (max (n + 1) (k + 1)) (enclosed x ++ op.symbol :: enclosed y) (.binary op t u) := by
  have ends : Follows .expression [] := follows_replicate .expression 0
  have left : Heads op.level (n + 1) (enclosed x) t (op.symbol :: (enclosed y ++ [])) :=
    heads_of_stands (stands_of_factor (follows_operator op 0 _) (h.group _))
  have right : Derives (k + 1) op.level.operand (enclosed y ++ []) u [] :=
    derives_operand_of_stands
      (stands_of_factor (follows_operandPlace op.level ends) (h'.group []))
      (follows_of_admits rfl ends)
  have whole : Stands .expression _ _ _ [] :=
    stands_of_heads rfl ends (left.operator (j := 0) right)
  exact whole.writes_nil

end Complete

theorem writes_of_factor (h : Derives n .factor (s ++ []) t []) : Writes n s t := by
  have whole : Stands .expression n s t [] :=
    stands_of_factor (follows_replicate .expression 0) h
  exact whole.writes_nil

end Grammar

/-- Complete texts compose: whatever the reader accepts by itself keeps its value between
parentheses, as an operand and as an argument. -/
theorem readValue_composed {d limit : Nat} {x y : List Char} {a b : Double}
    (balancedLeft : x.count ')' = x.count '(') (balancedRight : y.count ')' = y.count '(')
    (left : readValue d x = .ok a) (right : readValue d y = .ok b) (room : d + 2 ≤ limit) :
    (∀ op : Operator,
      readValue limit (enclosed x ++ op.symbol :: enclosed y) = .ok (op.apply a b)) ∧
    readValue limit ('-' :: enclosed x) = .ok (-a) ∧
    readValue limit (Builtin.floor.name ++ enclosed x) = .ok a.floor ∧
    readValue limit (Builtin.power.name ++ '(' :: (x ++ ',' :: (y ++ [')']))) = .ok (a.pow b) ∧
    readValue limit (Builtin.power.name ++ enclosed x ++ enclosed y) = .ok (a.pow b) := by
  obtain ⟨n, t, leLeft, writesLeft, rfl⟩ := exists_writes_of_readValue left
  obtain ⟨k, u, leRight, writesRight, rfl⟩ := exists_writes_of_readValue right
  have first : Grammar.Complete n x t := ⟨writesLeft, balancedLeft⟩
  have second : Grammar.Complete k y u := ⟨writesRight, balancedRight⟩
  refine ⟨fun op => ?_, ?_, ?_, ?_, ?_⟩
  · exact readValue_of_writes_of_le (first.operator op second) (by omega)
  · have negated : Grammar.Derives (n + 2) .factor ('-' :: enclosed x ++ [])
        (.signed .negative t) [] := .sign ⟨0, rfl⟩ (first.group [])
    exact readValue_of_writes_of_le (Grammar.writes_of_factor negated) (by omega)
  · exact readValue_of_writes_of_le (Grammar.writes_of_factor (first.floor [])) (by omega)
  · exact readValue_of_writes_of_le (Grammar.writes_of_factor (first.powerPair second []))
      (by omega)
  · exact readValue_of_writes_of_le (Grammar.writes_of_factor (first.powerGroups second []))
      (by omega)

/-- Calls without parentheses and spaces at the end are no obstacle. -/
theorem readValue_composed_floor :
    readValue 2 "Math.floor 7.5".toList = .ok (.ofFraction 7 1) ∧
    readValue 2 "(2) ".toList = .ok (.ofFraction 2 1) ∧
    readValue 4 (Builtin.power.name ++ enclosed "Math.floor 7.5".toList ++ enclosed "(2) ".toList) =
      .ok (Double.pow (.ofFraction 7 1) (.ofFraction 2 1)) := by
  have left : readValue 2 "Math.floor 7.5".toList = .ok (.ofFraction 7 1) := by decide +kernel
  have right : readValue 2 "(2) ".toList = .ok (.ofFraction 2 1) := by decide +kernel
  exact ⟨left, right, (readValue_composed (by decide) (by decide) left right
    (Nat.le_refl 4)).2.2.2.2⟩

end Reckoner
