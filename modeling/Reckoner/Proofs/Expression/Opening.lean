import Mathlib.Data.List.Basic
import Reckoner.Expression.Opening
import Reckoner.Proofs.Text.Tokens

/-!
# What an opening says about the text

`Opening.Describes o s` spells out the text that each opening stands for. A text without leading
spaces is described by exactly one opening, which is the one that `Opening.ofTrimmed` finds.
-/

namespace Reckoner

theorem Sign.ofSymbol?_eq_some_iff {c : Char} {sign : Sign} :
    Sign.ofSymbol? c = some sign ↔ sign.symbol = c := by
  cases sign <;> simp only [Sign.ofSymbol?, Sign.symbol] <;> grind

theorem Sign.ofSymbol?_eq_none_iff {c : Char} :
    Sign.ofSymbol? c = none ↔ ∀ sign : Sign, sign.symbol ≠ c := by
  rw [Option.eq_none_iff_forall_ne_some]
  exact forall_congr' fun sign => not_congr Sign.ofSymbol?_eq_some_iff

/-- Neither name begins the other, so at most one function leads a text. -/
theorem Builtin.leading?_eq_some_iff {s rest : List Char} {function : Builtin} :
    Builtin.leading? s = some (function, rest) ↔ s = function.name ++ rest := by
  constructor
  · intro found
    obtain ⟨f, -, h⟩ := List.exists_of_findSome?_eq_some found
    obtain ⟨t, begins, same⟩ := Option.map_eq_some_iff.1 h
    cases same
    exact (List.isPrefixOf?_eq_some_iff_append_eq.1 begins).symm
  · rintro rfl
    cases function <;> rfl

theorem Builtin.leading?_eq_none_iff {s : List Char} :
    Builtin.leading? s = none ↔ ∀ (function : Builtin) rest, s ≠ function.name ++ rest := by
  rw [Option.eq_none_iff_forall_ne_some, Prod.forall]
  exact forall_congr' fun f => forall_congr' fun rest => not_congr Builtin.leading?_eq_some_iff

/-- The lowercase letters begin behind the digits and the dot. -/
theorem isDigitOrDot_of_isLower {c : Char} (letter : c.isLower = true) :
    isDigitOrDot c = false := by
  have least : 'a'.val ≤ c.val := of_decide_eq_true (Bool.and_eq_true_iff.1 letter).1
  rw [Bool.eq_false_iff]
  intro digit
  simp only [isDigitOrDot, Char.isDigit, Bool.or_eq_true, Bool.and_eq_true, decide_eq_true_eq,
    beq_iff_eq] at digit
  rcases digit with digit | rfl
  · exact absurd (UInt32.le_trans least digit.2) (by decide)
  · exact absurd least (by decide)

namespace Opening

/-- The text that an opening stands for, spelled out. -/
def Describes : Opening → List Char → Prop
  | .sign mark rest, s => s = mark.symbol :: rest
  | .parenthesis rest, s => s = '(' :: rest
  | .builtin function rest, s => s = function.name ++ rest
  | .number run rest, s =>
    s = run ++ rest ∧ run ≠ [] ∧ run.all isDigitOrDot = true ∧ Stops isDigitOrDot rest
  | .word run rest, s =>
    s = run ++ rest ∧ run ≠ [] ∧ run.all Char.isLower = true ∧ Stops Char.isLower rest
  | .other c rest, s =>
    s = rest ∧ s.head? = some c ∧ c ≠ '(' ∧ (∀ mark : Sign, mark.symbol ≠ c) ∧
      (∀ (function : Builtin) behind, s ≠ function.name ++ behind) ∧
      isDigitOrDot c = false ∧ c.isLower = false
  | .nothing, s => s = []

/-- What is found at the front of a text describes it. -/
theorem describes_ofTrimmed (s : List Char) : (ofTrimmed s).Describes s := by
  cases s with
  | nil => rfl
  | cons c rest =>
    simp only [ofTrimmed]
    split
    · rename_i sign found
      rw [Sign.ofSymbol?_eq_some_iff] at found
      simp only [Describes, found]
    · rename_i noSign
      split
      · rename_i paren
        simp only [Describes, paren]
      · rename_i noParen
        split
        · rename_i function behind named
          exact Builtin.leading?_eq_some_iff.1 named
        · rename_i noName
          split
          · rename_i digit
            refine ⟨?_, List.cons_ne_nil _ _, ?_, stops_dropWhile rest⟩
            · rw [List.cons_append, List.takeWhile_append_dropWhile]
            · rw [List.all_cons, digit, List.all_takeWhile, Bool.and_self]
          · rename_i noDigit
            split
            · rename_i letter
              refine ⟨?_, List.cons_ne_nil _ _, ?_, stops_dropWhile rest⟩
              · rw [List.cons_append, List.takeWhile_append_dropWhile]
              · rw [List.all_cons, letter, List.all_takeWhile, Bool.and_self]
            · rename_i noLetter
              exact ⟨rfl, rfl, noParen, Sign.ofSymbol?_eq_none_iff.1 noSign,
                Builtin.leading?_eq_none_iff.1 noName, by simpa using noDigit,
                by simpa using noLetter⟩

/-- Behind the signs, the parenthesis and the names, whose first letter is `M`, only runs and
characters of no meaning are left. -/
theorem ofTrimmed_cons_of_ne {c : Char} (plus : c ≠ '+') (minus : c ≠ '-') (paren : c ≠ '(')
    (named : c ≠ 'M') (rest : List Char) :
    ofTrimmed (c :: rest) =
      if isDigitOrDot c then
        .number (c :: rest.takeWhile isDigitOrDot) (rest.dropWhile isDigitOrDot)
      else if c.isLower then
        .word (c :: rest.takeWhile Char.isLower) (rest.dropWhile Char.isLower)
      else .other c (c :: rest) := by
  have noSign : Sign.ofSymbol? c = none := by
    rw [Sign.ofSymbol?_eq_none_iff]
    intro mark
    cases mark
    · exact fun same => plus same.symm
    · exact fun same => minus same.symm
  have noName : Builtin.leading? (c :: rest) = none := by
    rw [Builtin.leading?_eq_none_iff]
    intro function behind same
    cases function <;> exact named (List.cons.inj same).1
  simp only [ofTrimmed, noSign, if_neg paren, noName]

/-- A description leaves no choice: the opening that describes a text is the one that is found. -/
theorem ofTrimmed_eq_of_describes {o : Opening} {s : List Char} (h : o.Describes s) :
    ofTrimmed s = o := by
  cases o with
  | sign mark rest =>
    cases h
    cases mark <;> rfl
  | parenthesis rest =>
    cases h
    rfl
  | builtin function rest =>
    cases h
    cases function <;> rfl
  | number run rest =>
    obtain ⟨rfl, nonempty, all, stops⟩ := h
    obtain ⟨c, run, rfl⟩ := List.exists_cons_of_ne_nil nonempty
    rw [List.all_cons, Bool.and_eq_true] at all
    obtain ⟨digit, all⟩ := all
    rw [List.cons_append, ofTrimmed_cons_of_ne, if_pos digit, takeWhile_append_of_stops all stops,
      dropWhile_append_of_stops all stops]
    all_goals
      rintro rfl
      simp [isDigitOrDot] at digit
  | word run rest =>
    obtain ⟨rfl, nonempty, all, stops⟩ := h
    obtain ⟨c, run, rfl⟩ := List.exists_cons_of_ne_nil nonempty
    rw [List.all_cons, Bool.and_eq_true] at all
    obtain ⟨letter, all⟩ := all
    have noDigit : ¬ isDigitOrDot c = true := by
      rw [isDigitOrDot_of_isLower letter]
      exact Bool.false_ne_true
    rw [List.cons_append, ofTrimmed_cons_of_ne, if_neg noDigit, if_pos letter,
      takeWhile_append_of_stops all stops, dropWhile_append_of_stops all stops]
    all_goals
      rintro rfl
      exact absurd letter (by decide)
  | other c rest =>
    obtain ⟨rfl, first, paren, noSign, noName, noDigit, noLetter⟩ := h
    obtain ⟨rest, rfl⟩ := List.head?_eq_some_iff.1 first
    simp only [ofTrimmed, Sign.ofSymbol?_eq_none_iff.2 noSign, if_neg paren,
      Builtin.leading?_eq_none_iff.2 noName, noDigit, noLetter, Bool.false_eq_true, if_false]
  | nothing =>
    cases h
    rfl

theorem ofText_eq_iff {o : Opening} {s : List Char} :
    ofText s = o ↔ o.Describes (skipSpaces s) := by
  constructor
  · rintro rfl
    exact describes_ofTrimmed _
  · exact ofTrimmed_eq_of_describes

/-- A run of digits and dots is found as far as it goes. -/
theorem ofText_run {run rest : List Char} (nonempty : run ≠ []) (all : run.all isDigitOrDot = true)
    (stops : Stops isDigitOrDot rest) : ofText (run ++ rest) = .number run rest := by
  rw [ofText_eq_iff]
  refine ⟨?_, nonempty, all, stops⟩
  obtain ⟨c, run, rfl⟩ := List.exists_cons_of_ne_nil nonempty
  refine skipSpaces_of_ne ?_ (run ++ rest)
  rintro rfl
  simp [isDigitOrDot] at all

end Opening

end Reckoner
