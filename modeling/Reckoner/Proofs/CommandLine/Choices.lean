import Mathlib.Algebra.Group.Nat.Defs
import Mathlib.Data.List.Nodup
import Reckoner.Proofs.CommandLine.Spelling

/-!
# Making choices

The three choices differ in the type of their values and in nothing else, so what is said about
making a choice is said once, for the value of any (`Choice.Value`, `Chosen.get?`). A choice that is
made touches no other. So options that are given once each are all chosen, whatever their order
(`Chosen.exists_ofDirectives?`), and a variable stands in where its option has not been given
(`Chosen.resolve?_cases`).
-/

namespace Reckoner

/-! ## Values of choices -/

namespace Choice

/-- What is chosen. -/
abbrev Value : Choice → Type
  | .language => Language
  | .maxOperators | .maxDepth => Nat

/-- The value that a text writes. -/
def read? : (choice : Choice) → List Char → Option choice.Value
  | .language, text => Language.ofName? (String.ofList text)
  | .maxOperators, text | .maxDepth, text => readSize? text

/-- The value where nothing is chosen. -/
def default : (choice : Choice) → choice.Value
  | .language => .english
  | .maxOperators => defaultMaxOperators
  | .maxDepth => defaultMaxDepth

theorem mem_all (choice : Choice) : choice ∈ all := by cases choice <;> decide

end Choice

/-- The choice that has been made, if it has. -/
def Chosen.get? (chosen : Chosen) : (choice : Choice) → Option choice.Value
  | .language => chosen.language?
  | .maxOperators => chosen.maxOperators?
  | .maxDepth => chosen.maxDepth?

/-- The value of a choice in the settings. -/
def Settings.get (settings : Settings) : (choice : Choice) → choice.Value
  | .language => settings.language
  | .maxOperators => settings.maxOperators
  | .maxDepth => settings.maxDepth

theorem Settings.ext_get {settings settings' : Settings}
    (h : ∀ choice, settings.get choice = settings'.get choice) : settings = settings' := by
  cases settings
  cases settings'
  congr
  · exact h .language
  · exact h .maxOperators
  · exact h .maxDepth

/-! ### Texts that write a value -/

theorem Language.ofName?_eq_some_iff {name : String} {language : Language} :
    Language.ofName? name = some language ↔ name = language.name := by
  constructor
  · intro found
    have same := List.find?_some found
    exact (beq_iff_eq.1 same).symm
  · rintro rfl
    cases language <;> decide

/-- A size is written with ASCII digits, perhaps behind a plus, and fits in sixty-four bits. -/
theorem readSize?_eq_some_iff {text : List Char} {size : Nat} :
    readSize? text = some size ↔
      ∃ digits, (text = digits ∨ text = '+' :: digits) ∧ digits ≠ [] ∧
        (∀ c ∈ digits, c.isDigit = true) ∧ Nat.ofDigitChars 10 digits 0 = size ∧ size < 2 ^ 64 := by
  simp only [readSize?, Option.ite_none_right_eq_some, Option.some.injEq, List.all_eq_true]
  constructor
  · rintro ⟨⟨nonempty, digits, small⟩, rfl⟩
    refine ⟨_, ?_, nonempty, digits, rfl, small⟩
    split
    · exact .inr rfl
    · exact .inl rfl
  · rintro ⟨digits, rfl | rfl, nonempty, all, rfl, small⟩
    · split
      · exact absurd (all '+' List.mem_cons_self) (by decide)
      · exact ⟨⟨nonempty, all, small⟩, rfl⟩
    · exact ⟨⟨nonempty, all, small⟩, rfl⟩

theorem isWord_of_readSize? {text : List Char} {size : Nat} (h : readSize? text = some size) :
    IsWord text := by
  obtain ⟨digits, written, nonempty, all, -, -⟩ := readSize?_eq_some_iff.1 h
  rcases written with rfl | rfl
  · obtain ⟨c, rest, rfl⟩ := List.exists_cons_of_ne_nil nonempty
    have digit := all c List.mem_cons_self
    refine ⟨c, rest, rfl, ?_, ?_⟩ <;>
    · rintro rfl
      exact absurd digit (by decide)
  · exact ⟨'+', digits, rfl, by decide, by decide⟩

/-- What writes a value does not look like an option. -/
theorem Choice.isWord_of_read? {choice : Choice} {text : List Char} {value : choice.Value}
    (h : choice.read? text = some value) : IsWord text := by
  cases choice with
  | language =>
    have name := congrArg String.toList (Language.ofName?_eq_some_iff.1 h)
    rw [String.toList_ofList] at name
    subst name
    cases value with
    | english => exact ⟨'e', _, rfl, by decide, by decide⟩
    | russian => exact ⟨'r', _, rfl, by decide, by decide⟩
  | maxOperators | maxDepth => exact isWord_of_readSize? h

/-! ## Making choices -/

namespace Chosen

variable {chosen : Chosen} {choice : Choice} {text : List Char}

theorem has_eq (chosen : Chosen) (choice : Choice) :
    chosen.has choice = (chosen.get? choice).isSome := by cases choice <;> rfl

theorem set?_eq_none (h : choice.read? text = none) : chosen.set? choice text = none := by
  cases choice <;> exact Option.map_eq_none_iff.2 h

/-- A choice is made and no other is touched. -/
theorem exists_set? (chosen : Chosen) {value : choice.Value} (h : choice.read? text = some value) :
    ∃ next, chosen.set? choice text = some next ∧ next.get? choice = some value ∧
      ∀ other, other ≠ choice → next.get? other = chosen.get? other := by
  cases choice <;> refine ⟨_, Option.map_eq_some_iff.2 ⟨value, h, rfl⟩, rfl, fun other ne => ?_⟩ <;>
    cases other <;> first | rfl | contradiction

/-! ### By the arguments -/

/-- Options that are given once each, and whose values are valid, are chosen. The induction is on
the options; those that are still to come have not been chosen. -/
theorem exists_ofDirectives? {given : List (Choice × List Char)} (once : (given.map Prod.fst).Nodup)
    (valid : ∀ p ∈ given, (p.1.read? p.2).isSome) (fresh : ∀ p ∈ given, chosen.get? p.1 = none) :
    ∃ next, Request.ofDirectives? chosen (Directive.choices given) = some (.converse next) ∧
      ∀ choice, next.get? choice =
        ((given.lookup choice).bind choice.read?).or (chosen.get? choice) := by
  induction given generalizing chosen with
  | nil => exact ⟨chosen, rfl, fun _ => rfl⟩
  | cons p given ih =>
    obtain ⟨choice, text⟩ := p
    obtain ⟨others, once⟩ := List.nodup_cons.1 once
    obtain ⟨value, read⟩ := Option.isSome_iff_exists.1 (valid _ List.mem_cons_self)
    have free : chosen.has choice = false := by
      rw [has_eq, fresh _ List.mem_cons_self]
      rfl
    obtain ⟨next, set, own, same⟩ := chosen.exists_set? read
    have ne_of_mem : ∀ q ∈ given, q.1 ≠ choice := by
      rintro q member rfl
      exact others (List.mem_map.2 ⟨q, member, rfl⟩)
    have fresh' : ∀ q ∈ given, next.get? q.1 = none := by
      intro q member
      rw [same _ (ne_of_mem q member)]
      exact fresh q (List.mem_cons_of_mem _ member)
    obtain ⟨last, settled, chosen_last⟩ :=
      ih once (fun q member => valid q (List.mem_cons_of_mem _ member)) fresh'
    refine ⟨last, ?_, fun other => ?_⟩
    · have added : chosen.add? choice text = some next := by
        rw [add?, free, set]
        rfl
      change Request.ofDirectives? chosen (.choose choice text :: Directive.choices given) = _
      rw [Request.ofDirectives?, added]
      exact settled
    · rw [chosen_last other, List.lookup_cons]
      by_cases equal : other = choice
      · subst equal
        have absent : given.lookup other = none := by
          rw [List.lookup_eq_none_iff]
          intro q member
          simpa using (ne_of_mem q member).symm
        simp [absent, own, read]
      · rw [same other equal, beq_false_of_ne equal]

/-! ### By the environment -/

/-- A variable that is needed holds no value. -/
def Unreadable (environment : Environment) (chosen : Chosen) (choice : Choice) : Prop :=
  chosen.get? choice = none ∧
    ∃ text, environment choice.variableName = some text ∧ choice.read? text.toList = none

/-- The value of a variable. -/
def fromVariable? (environment : Environment) (choice : Choice) : Option choice.Value :=
  (environment choice.variableName).bind fun text => choice.read? text.toList

variable (environment : Environment)

/-- A variable stands in for its option and for no other. -/
theorem fromEnvironment?_cases (chosen : Chosen) (choice : Choice) :
    (chosen.fromEnvironment? environment choice = none ∧ Unreadable environment chosen choice) ∨
    (∃ next, chosen.fromEnvironment? environment choice = some next ∧
      ¬ Unreadable environment chosen choice ∧
      next.get? choice = (chosen.get? choice).or (fromVariable? environment choice) ∧
      ∀ other, other ≠ choice → next.get? other = chosen.get? other) := by
  unfold fromEnvironment? Unreadable fromVariable?
  rw [has_eq]
  cases made : chosen.get? choice with
  | some value => exact .inr ⟨chosen, rfl, by simp, by rw [made]; rfl, fun _ _ => rfl⟩
  | none =>
    cases set : environment choice.variableName with
    | none => exact .inr ⟨chosen, rfl, by simp, by rw [made]; rfl, fun _ _ => rfl⟩
    | some text =>
      cases read : choice.read? text.toList with
      | none => exact .inl ⟨set?_eq_none read, rfl, text, rfl, read⟩
      | some value =>
        obtain ⟨next, made', own, same⟩ := chosen.exists_set? read
        exact .inr ⟨next, made', by simp [read], by simp [own, read], same⟩

/-- The induction is on the choices that are looked at. -/
theorem foldlM_fromEnvironment?_cases {choices : List Choice} (once : choices.Nodup)
    (chosen : Chosen) :
    (choices.foldlM (fromEnvironment? environment) chosen = none ∧
      ∃ choice ∈ choices, Unreadable environment chosen choice) ∨
    (∃ next, choices.foldlM (fromEnvironment? environment) chosen = some next ∧
      (∀ choice ∈ choices, ¬ Unreadable environment chosen choice ∧
        next.get? choice = (chosen.get? choice).or (fromVariable? environment choice)) ∧
      ∀ choice, choice ∉ choices → next.get? choice = chosen.get? choice) := by
  induction choices generalizing chosen with
  | nil => exact .inr ⟨chosen, rfl, by simp, fun _ _ => rfl⟩
  | cons first choices ih =>
    obtain ⟨apart, once⟩ := List.nodup_cons.1 once
    have ne_of_mem : ∀ choice ∈ choices, choice ≠ first := by
      rintro _ member rfl
      exact apart member
    rw [List.foldlM_cons]
    rcases fromEnvironment?_cases environment chosen first with
      ⟨refused, unreadable⟩ | ⟨next, taken, readable, own, same⟩
    · exact .inl ⟨by rw [refused]; rfl, first, List.mem_cons_self, unreadable⟩
    · rw [taken]
      have unreadable_iff : ∀ choice ∈ choices,
          Unreadable environment next choice ↔ Unreadable environment chosen choice := by
        intro choice member
        rw [Unreadable, Unreadable, same choice (ne_of_mem choice member)]
      rcases ih once next with ⟨refused, choice, member, unreadable⟩ | ⟨last, done, filled, left⟩
      · exact .inl ⟨refused, choice, List.mem_cons_of_mem _ member,
          (unreadable_iff choice member).1 unreadable⟩
      · refine .inr ⟨last, done, ?_, ?_⟩
        · intro choice member
          rcases List.mem_cons.1 member with rfl | member
          · exact ⟨readable, (left choice apart).trans own⟩
          · obtain ⟨readable', found⟩ := filled choice member
            rw [same choice (ne_of_mem choice member)] at found
            exact ⟨mt (unreadable_iff choice member).2 readable', found⟩
        · intro choice absent
          rw [List.mem_cons, not_or] at absent
          rw [left choice absent.2, same choice absent.1]

theorem get_settings (chosen : Chosen) (choice : Choice) :
    chosen.settings.get choice = (chosen.get? choice).getD choice.default := by
  cases choice <;> rfl

/-- The settings are resolved if every variable that is needed holds a value, and only then. -/
theorem resolve?_cases (chosen : Chosen) :
    (chosen.resolve? environment = none ∧ ∃ choice, Unreadable environment chosen choice) ∨
    (∃ settings, chosen.resolve? environment = some settings ∧
      ∀ choice, ¬ Unreadable environment chosen choice ∧ settings.get choice =
        ((chosen.get? choice).or (fromVariable? environment choice)).getD choice.default) := by
  have once : Choice.all.Nodup := by decide
  rcases foldlM_fromEnvironment?_cases environment once chosen with
    ⟨refused, choice, -, unreadable⟩ | ⟨next, done, filled, -⟩
  · exact .inl ⟨by rw [resolve?, refused]; rfl, choice, unreadable⟩
  · refine .inr ⟨next.settings, by rw [resolve?, done]; rfl, fun choice => ?_⟩
    obtain ⟨readable, found⟩ := filled choice choice.mem_all
    exact ⟨readable, by rw [get_settings, found]⟩

end Chosen

end Reckoner
