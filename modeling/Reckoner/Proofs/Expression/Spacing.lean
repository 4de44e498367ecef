import Reckoner.Proofs.Grammar.Acceptance

/-!
# A space between tokens

A text may be cut in two wherever no token is cut, and read with a space in the cut. `Alike` relates
two texts that differ only by leading spaces or by a space in one such cut: every reading step takes
the same from both and leaves remainders that are alike again, so both are read as the same tree, or
fail with the same fault.
-/

namespace Reckoner

/-- The cut between `a` and `b` divides a run of characters of the class. -/
def dividesRun (p : Char → Bool) (a b : List Char) : Bool := a.getLast?.any p && b.head?.any p

/-- No token goes on across the cut between `a` and `b`: neither a run of digits and dots, nor a run
of lowercase letters, nor the name of a function with its first `n` characters in front of the
cut. -/
structure Separable (a b : List Char) : Prop where
  number : dividesRun isDigitOrDot a b = false
  word : dividesRun Char.isLower a b = false
  name : ∀ function : Builtin, ∀ n < function.name.length, 0 < n →
    ¬ (function.name.take n <:+ a ∧ function.name.drop n <+: b)

instance (a b : List Char) : Decidable (Separable a b) :=
  decidable_of_iff
    (dividesRun isDigitOrDot a b = false ∧ dividesRun Char.isLower a b = false ∧
      ∀ function ∈ Builtin.all, ∀ n < function.name.length, 0 < n →
        ¬ (function.name.take n <:+ a ∧ function.name.drop n <+: b))
    ⟨fun ⟨number, word, name⟩ => ⟨number, word, fun function =>
        name function (by cases function <;> simp [Builtin.all])⟩,
      fun h => ⟨h.number, h.word, fun function _ => h.name function⟩⟩

theorem dividesRun_of_append {p : Char → Bool} {a b : List Char} (x : List Char)
    (h : dividesRun p (x ++ a) b = false) : dividesRun p a b = false := by
  unfold dividesRun at h ⊢
  cases last : a.getLast? with
  | none => rfl
  | some c => rwa [List.getLast?_append, last, Option.some_or] at h

/-- A beginning of the text that the cut does not divide lies in front of the cut. -/
theorem exists_append_of_append_eq {α : Type} {a b word rest : List α} (h : a ++ b = word ++ rest)
    (cut : ∀ v, v ≠ [] → word = a ++ v → ¬ v <+: b) : ∃ x, a = word ++ x ∧ rest = x ++ b := by
  rcases List.append_eq_append_iff.1 h with ⟨v, inside, behind⟩ | ⟨x, front, behind⟩
  · cases v with
    | nil => exact ⟨[], by simpa using inside.symm, by simpa using behind.symm⟩
    | cons c v => exact absurd ⟨rest, behind.symm⟩ (cut _ (List.cons_ne_nil c v) inside)
  · exact ⟨x, front, behind⟩

theorem space_not_mem_name (function : Builtin) : ' ' ∉ function.name := by
  cases function <;> decide

namespace Separable

variable {a b : List Char}

theorem of_append {x : List Char} (h : Separable (x ++ a) b) : Separable a b where
  number := dividesRun_of_append x h.number
  word := dividesRun_of_append x h.word
  name function n lt pos cut :=
    h.name function n lt pos ⟨cut.1.trans (List.suffix_append x a), cut.2⟩

/-- A run at the beginning lies in front of a cut that divides no run. -/
theorem run_in_front {p : Char → Bool} {run rest : List Char} (nonempty : a ≠ [])
    (cut : dividesRun p a b = false) (h : a ++ b = run ++ rest) (all : run.all p = true) :
    ∃ x, a = run ++ x ∧ rest = x ++ b := by
  refine exists_append_of_append_eq h ?_
  rintro (_ | ⟨d, v⟩) nonempty' rfl ⟨y, rfl⟩
  · contradiction
  · rw [List.all_append, Bool.and_eq_true, List.all_cons, Bool.and_eq_true] at all
    obtain ⟨inA, first, -⟩ := all
    have last : p (a.getLast nonempty) = true :=
      List.all_eq_true.1 inA _ (List.getLast_mem nonempty)
    simp [dividesRun, List.getLast?_eq_some_getLast nonempty, last, first] at cut

/-- The name of a function lies in front of the cut if it begins there. -/
theorem name_in_front {function : Builtin} {rest : List Char} (h : Separable a b)
    (nonempty : a ≠ []) (same : a ++ b = function.name ++ rest) :
    ∃ x, a = function.name ++ x ∧ rest = x ++ b := by
  refine exists_append_of_append_eq same ?_
  intro v nonempty' whole begins
  have length : function.name.length = a.length + v.length := by rw [whole, List.length_append]
  have pos : 0 < v.length := List.length_pos_iff.2 nonempty'
  refine h.name function a.length (by omega) (List.length_pos_iff.2 nonempty) ?_
  rw [whole, List.take_left, List.drop_left]
  exact ⟨List.suffix_refl a, begins⟩

end Separable

/-! ## Alike texts -/

/-- Two texts that differ only by leading spaces or by one space in a cut between tokens. -/
def Alike (s s' : List Char) : Prop :=
  skipSpaces s = skipSpaces s' ∨ ∃ a b, s = a ++ b ∧ s' = a ++ ' ' :: b ∧ Separable a b

/-- Alike texts without leading spaces: they end, or begin with one character. -/
inductive SameFront : List Char → List Char → Prop
  | nil : SameFront [] []
  | cons (c : Char) {s s'} : Alike s s' → SameFront (c :: s) (c :: s')

theorem Separable.alike {a b : List Char} (h : Separable a b) : Alike (a ++ b) (a ++ ' ' :: b) :=
  .inr ⟨a, b, rfl, rfl, h⟩

namespace Alike

variable {s s' : List Char}

theorem refl (s : List Char) : Alike s s := .inl rfl

/-- Behind the leading spaces, alike texts are the same or still have the cut. -/
theorem skipSpaces_cases (h : Alike s s') :
    skipSpaces s = skipSpaces s' ∨ ∃ c a b, skipSpaces s = c :: (a ++ b) ∧
      skipSpaces s' = c :: (a ++ ' ' :: b) ∧ Separable (c :: a) b := by
  rcases h with same | ⟨a, b, rfl, rfl, separable⟩
  · exact .inl same
  · induction a with
    | nil => exact .inl (skipSpaces_space b).symm
    | cons c a ih =>
      by_cases space : c = ' '
      · subst space
        exact ih (Separable.of_append (x := [' ']) separable)
      · exact .inr ⟨c, a, b, skipSpaces_of_ne space _, skipSpaces_of_ne space _, separable⟩

theorem sameFront (h : Alike s s') : SameFront (skipSpaces s) (skipSpaces s') := by
  rcases h.skipSpaces_cases with same | ⟨c, a, b, front, front', separable⟩
  · rw [← same]
    cases skipSpaces s with
    | nil => exact .nil
    | cons c rest => exact .cons c (refl rest)
  · rw [front, front']
    exact .cons c (Separable.of_append (x := [c]) separable).alike

theorem accept?_eq_some {c : Char} {rest : List Char} (h : Alike s s')
    (found : accept? c s = some rest) : ∃ rest', accept? c s' = some rest' ∧ Alike rest rest' := by
  rw [accept?_eq_some_iff] at found
  have front := h.sameFront
  rw [found] at front
  generalize found' : skipSpaces s' = t at front
  cases front with
  | cons _ alike => exact ⟨_, accept?_eq_some_iff.2 found', alike⟩

theorem accept?_eq_none {c : Char} (h : Alike s s') (missing : accept? c s = none) :
    accept? c s' = none := by
  rw [accept?_eq_none_iff] at missing ⊢
  intro rest found'
  have front := h.sameFront
  rw [found'] at front
  generalize found : skipSpaces s = t at front
  cases front with
  | cons _ _ => exact missing _ found

theorem skipSpaces (h : Alike s s') : Alike (skipSpaces s) (skipSpaces s') := by
  rcases h.skipSpaces_cases with same | ⟨c, a, b, front, front', separable⟩
  · exact same ▸ refl _
  · rw [front, front']
    exact separable.alike

theorem closing (h : Alike s s') : Alike (closing s) (closing s') := by
  unfold Reckoner.closing
  cases found : accept? ')' s with
  | none =>
    rw [h.accept?_eq_none found]
    exact h.skipSpaces
  | some rest =>
    obtain ⟨rest', found', alike⟩ := h.accept?_eq_some found
    rw [found']
    exact alike

end Alike

/-! ## Alike openings -/

/-- Openings that take the same from alike texts. -/
inductive Opening.Alike : Opening → Opening → Prop
  | sign (mark : Sign) {s s'} : Reckoner.Alike s s' → Alike (.sign mark s) (.sign mark s')
  | parenthesis {s s'} : Reckoner.Alike s s' → Alike (.parenthesis s) (.parenthesis s')
  | builtin (function : Builtin) {s s'} :
      Reckoner.Alike s s' → Alike (.builtin function s) (.builtin function s')
  | number (run : List Char) {s s'} : Reckoner.Alike s s' → Alike (.number run s) (.number run s')
  | word (run : List Char) {s s'} : Reckoner.Alike s s' → Alike (.word run s) (.word run s')
  | other (c : Char) (s s') : Alike (.other c s) (.other c s')
  | nothing : Alike .nothing .nothing

theorem Opening.Alike.refl (o : Opening) : Opening.Alike o o := by
  cases o with
  | sign mark rest => exact .sign mark (.refl rest)
  | parenthesis rest => exact .parenthesis (.refl rest)
  | builtin function rest => exact .builtin function (.refl rest)
  | number run rest => exact .number run (.refl rest)
  | word run rest => exact .word run (.refl rest)
  | other c rest => exact .other c rest rest
  | nothing => exact .nothing

theorem Stops.insert_space {p : Char → Bool} {x b : List Char} (space : p ' ' = false)
    (h : Stops p (x ++ b)) : Stops p (x ++ ' ' :: b) := by
  cases x with
  | nil => exact stops_cons_iff.2 space
  | cons c x => exact stops_cons_iff.2 (stops_cons_iff.1 h)

/-- A space in a cut between tokens, behind the first character, changes only the remainder. -/
theorem Separable.opening {c : Char} {a b : List Char} (h : Separable (c :: a) b) :
    Opening.Alike (Opening.ofTrimmed (c :: (a ++ b)))
      (Opening.ofTrimmed (c :: (a ++ ' ' :: b))) := by
  have behind : Separable a b := of_append (x := [c]) h
  have describes := Opening.describes_ofTrimmed (c :: (a ++ b))
  generalize Opening.ofTrimmed (c :: (a ++ b)) = o at describes ⊢
  cases o with
  | sign mark rest =>
    cases describes
    rw [Opening.ofTrimmed_eq_of_describes (o := .sign mark _) rfl]
    exact .sign mark behind.alike
  | parenthesis rest =>
    cases describes
    rw [Opening.ofTrimmed_eq_of_describes (o := .parenthesis _) rfl]
    exact .parenthesis behind.alike
  | builtin function rest =>
    obtain ⟨x, front, rfl⟩ := h.name_in_front (List.cons_ne_nil c a) describes
    rw [front] at h
    rw [← List.cons_append, front, List.append_assoc,
      Opening.ofTrimmed_eq_of_describes (o := .builtin function _) rfl]
    exact .builtin function h.of_append.alike
  | number run rest =>
    obtain ⟨same, nonempty, all, stops⟩ := describes
    obtain ⟨x, front, rfl⟩ := run_in_front (List.cons_ne_nil c a) h.number same all
    rw [front] at h
    rw [← List.cons_append, front, List.append_assoc,
      Opening.ofTrimmed_eq_of_describes (o := .number run _)
        ⟨rfl, nonempty, all, stops.insert_space rfl⟩]
    exact .number run h.of_append.alike
  | word run rest =>
    obtain ⟨same, nonempty, all, stops⟩ := describes
    obtain ⟨x, front, rfl⟩ := run_in_front (List.cons_ne_nil c a) h.word same all
    rw [front] at h
    rw [← List.cons_append, front, List.append_assoc,
      Opening.ofTrimmed_eq_of_describes (o := .word run _)
        ⟨rfl, nonempty, all, stops.insert_space rfl⟩]
    exact .word run h.of_append.alike
  | other d rest =>
    obtain ⟨-, first, paren, noSign, noName, noDigit, noLetter⟩ := describes
    have noName' : ∀ (function : Builtin) rest, c :: (a ++ ' ' :: b) ≠ function.name ++ rest := by
      intro function rest same
      -- a name holds no space, so it would end in front of the one in the cut
      have cut : ∀ v, v ≠ [] → function.name = (c :: a) ++ v → ¬ v <+: ' ' :: b := by
        rintro (_ | ⟨d, v⟩) nonempty whole begins
        · contradiction
        · cases (List.cons_prefix_cons.1 begins).1
          exact space_not_mem_name function (by simp [whole])
      obtain ⟨x, front, -⟩ := exists_append_of_append_eq (a := c :: a) same cut
      exact noName function (x ++ b) (by rw [← List.cons_append, front, List.append_assoc])
    rw [Opening.ofTrimmed_eq_of_describes (o := .other d (c :: (a ++ ' ' :: b)))
      ⟨rfl, first, paren, noSign, noName', noDigit, noLetter⟩]
    exact .other d _ _
  | nothing => contradiction

theorem Alike.opening {s s' : List Char} {o : Opening} (h : Alike s s')
    (opened : Opening.ofText s = o) : ∃ o', Opening.ofText s' = o' ∧ Opening.Alike o o' := by
  refine ⟨_, rfl, ?_⟩
  rw [← opened, Opening.ofText, Opening.ofText]
  rcases h.skipSpaces_cases with same | ⟨c, a, b, front, front', separable⟩
  · rw [same]
    exact .refl _
  · rw [front, front']
    exact separable.opening

/-! ## Alike answers -/

/-- The same tree with alike remainders, or the same fault. -/
inductive SameAnswer :
    Except Setback (Expression × List Char) → Except Setback (Expression × List Char) → Prop
  | ok (t : Expression) {r r'} : Alike r r' → SameAnswer (.ok (t, r)) (.ok (t, r'))
  | error (fault : Fault) (r r') : SameAnswer (.error ⟨fault, r⟩) (.error ⟨fault, r'⟩)

namespace SameAnswer

variable {x y : Except Setback (Expression × List Char)}

theorem bind {f g : Expression × List Char → Except Setback (Expression × List Char)}
    (h : SameAnswer x y)
    (h' : ∀ t r r', x = .ok (t, r) → Alike r r' → SameAnswer (f (t, r)) (g (t, r'))) :
    SameAnswer (x.bind f) (y.bind g) := by
  cases h with
  | ok t alike => exact h' t _ _ rfl alike
  | error fault r r' => exact .error fault r r'

theorem map {f : Expression × List Char → Expression × List Char} (h : SameAnswer x y)
    (h' : ∀ t r r', Alike r r' → SameAnswer (.ok (f (t, r))) (.ok (f (t, r')))) :
    SameAnswer (x.map f) (y.map f) := by
  cases h with
  | ok t alike => exact h' t _ _ alike
  | error fault r r' => exact .error fault r r'

end SameAnswer

namespace Reader

/-- Alike texts are read alike, whatever the part and however much room there is. -/
theorem read_alike (limit room : Nat) (part : Part) (s : List Char) :
    ∀ s', Alike s s' → SameAnswer (read limit room part s) (read limit room part s') := by
  induction room, part, s using read_induct limit with
  | chain room level s operand tail =>
    intro s' alike
    rw [read_chain, read_chain]
    exact (operand s' alike).bind fun t r r' first behind => tail t r first r' behind
  | done room level left s none =>
    intro s' alike
    have none' : ∀ c rest, skipSpaces s' = c :: rest → level.operator? c = .none := by
      intro c rest ahead'
      have front := alike.sameFront
      rw [ahead'] at front
      generalize ahead : skipSpaces s = t at front
      cases front with
      | cons _ _ => exact none c _ ahead
    rw [read_tail_done none, read_tail_done none']
    exact .ok left alike.skipSpaces
  | more room op left s rest ahead operand tail =>
    intro s' alike
    obtain ⟨rest', ahead', behind⟩ := alike.accept?_eq_some (accept?_eq_some_iff.2 ahead)
    rw [read_tail_more ahead rfl, read_tail_more (accept?_eq_some_iff.1 ahead') rfl]
    exact (operand rest' behind).bind fun t r r' right behind => tail t r right r' behind
  | full s =>
    intro s' _
    rw [read_factor_zero, read_factor_zero]
    exact .error _ _ _
  | sign room s mark rest opened operand =>
    intro s' alike
    obtain ⟨_, opened', opening⟩ := alike.opening opened
    rw [read_factor_succ, read_factor_succ, opened, opened']
    cases opening with
    | sign _ behind => exact (operand _ behind).map fun t r r' => .ok _
  | parenthesis room s rest opened inside =>
    intro s' alike
    obtain ⟨_, opened', opening⟩ := alike.opening opened
    rw [read_factor_succ, read_factor_succ, opened, opened']
    cases opening with
    | parenthesis behind => exact (inside _ behind).map fun t r r' h => .ok _ h.closing
  | builtin room s function rest opened call =>
    intro s' alike
    obtain ⟨_, opened', opening⟩ := alike.opening opened
    rw [read_factor_succ, read_factor_succ, opened, opened']
    cases opening with
    | builtin _ behind => exact call _ behind
  | number room s run rest opened =>
    intro s' alike
    obtain ⟨_, opened', opening⟩ := alike.opening opened
    rw [read_factor_succ, read_factor_succ, opened, opened']
    cases opening with
    | number _ behind =>
      cases numeral : Numeral.ofRun? run with
      | some n => simp only [numeral]; exact .ok _ behind
      | none => simp only [numeral]; exact .error _ _ _
  | word room s run rest opened call =>
    intro s' alike
    obtain ⟨_, opened', opening⟩ := alike.opening opened
    rw [read_factor_succ, read_factor_succ, opened, opened']
    cases opening with
    | word _ behind => exact (call _ behind).bind fun t r r' _ _ => .error _ r r'
  | other room s c rest opened =>
    intro s' alike
    obtain ⟨_, opened', opening⟩ := alike.opening opened
    rw [read_factor_succ, read_factor_succ, opened, opened']
    cases opening with
    | other _ _ rest' => exact .error _ rest rest'
  | nothing room s opened =>
    intro s' alike
    obtain ⟨_, opened', opening⟩ := alike.opening opened
    rw [read_factor_succ, read_factor_succ, opened, opened']
    cases opening with
    | nothing => exact .error _ [] []
  | floorGroup room s inside opened argument =>
    intro s' alike
    obtain ⟨inside', opened', behind⟩ := alike.accept?_eq_some opened
    rw [read_call_floor, read_call_floor, opened, opened']
    exact (argument inside' behind).map fun t r r' h => .ok _ h.closing
  | floorFactor room s opened argument =>
    intro s' alike
    rw [read_call_floor, read_call_floor, opened, alike.accept?_eq_none opened]
    exact (argument _ alike.skipSpaces).map fun t r r' => .ok _
  | powerGroup room s inside opened base exponent =>
    intro s' alike
    obtain ⟨inside', opened', behind⟩ := alike.accept?_eq_some opened
    rw [read_call_power, read_call_power, opened, opened']
    refine (base inside' behind).bind fun t r r' first behind => ?_
    obtain ⟨second, factor⟩ := exponent t r first
    cases separated : accept? ',' r with
    | some rest =>
      obtain ⟨rest', separated', behind⟩ := behind.accept?_eq_some separated
      simp only [separated']
      exact (second rest separated rest' behind).map fun u q q' h => .ok _ h.closing
    | none =>
      simp only [behind.accept?_eq_none separated]
      exact (factor separated _ behind.closing).map fun u q q' => .ok (.power t u)
  | powerFactors room s opened base exponent =>
    intro s' alike
    rw [read_call_power, read_call_power, opened, alike.accept?_eq_none opened]
    exact (base _ alike.skipSpaces).bind fun t r r' first behind =>
      (exponent t r first r' behind).map fun u q q' => .ok _

end Reader

theorem Expression.read_alike (limit : Nat) {s s' : List Char} (h : Alike s s') :
    read limit s' = read limit s := by
  have alike := Reader.read_alike limit limit (.chain .additive) s s' h
  have ends := Grammar.skipSpaces_of_read_chain limit limit (.chain .additive)
  rw [read_eq, read_eq]
  generalize first : Reader.read limit limit (.chain .additive) s = x at alike
  generalize second : Reader.read limit limit (.chain .additive) s' = y at alike
  cases alike with
  | error fault r r' => rfl
  | ok t behind =>
    -- both readings stop in front of something that is no space
    have front := behind.sameFront
    rw [ends s _ _ first, ends s' _ _ second] at front
    cases front with
    | nil => rfl
    | cons c _ => rfl

/-- A space between tokens changes nothing: with it or without it a text has the same value or the
same fault. -/
theorem readValue_insert_space (limit : Nat) {a b : List Char} (h : Separable a b) :
    readValue limit (a ++ ' ' :: b) = readValue limit (a ++ b) := by
  rw [readValue, readValue, Expression.read_alike limit h.alike]

theorem readValue_insert_space_floor :
    Separable "Math.floor".toList "7.5x".toList ∧
      readValue 2 ("Math.floor".toList ++ ' ' :: "7.5x".toList) =
        readValue 2 ("Math.floor".toList ++ "7.5x".toList) := by
  have separable : Separable "Math.floor".toList "7.5x".toList := by decide
  exact ⟨separable, readValue_insert_space 2 separable⟩

end Reckoner
