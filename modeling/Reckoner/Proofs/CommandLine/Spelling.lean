import Reckoner.CommandLine.Options

/-!
# Ways to write options

An option can be written in several ways, and they all come to the same directive
(`Given.ofArguments`). There are no other ways: arguments that make choices and nothing else are
options written one after another, up to the two dashes that may stand at the end (`exists_given`).
That is because an argument can be recovered from how it looks (`Argument.text_ofText`).
-/

namespace Reckoner

/-- The ways to write an option with its value. Only the language has a short name. -/
inductive Written : Choice → List Char → List (List Char) → Prop where
  | long (choice : Choice) (value : List Char) :
    Written choice value ["--".toList ++ choice.longName, value]
  | longJoined (choice : Choice) (value : List Char) :
    Written choice value ["--".toList ++ choice.longName ++ '=' :: value]
  | short (value : List Char) : Written .language value ["-l".toList, value]
  | shortAttached (value : List Char) : Written .language value ["-l".toList ++ value]
  | shortJoined (value : List Char) : Written .language value ["-l=".toList ++ value]

/-- Options with their values, written one after another. -/
inductive Given : List (Choice × List Char) → List (List Char) → Prop where
  | nil : Given [] []
  | cons {choice : Choice} {value : List Char} {given : List (Choice × List Char)}
    {arguments more : List (List Char)} :
    Written choice value arguments → Given given more →
      Given ((choice, value) :: given) (arguments ++ more)

/-- The directives that make choices in this order. -/
def Directive.choices (given : List (Choice × List Char)) : List Directive :=
  given.map fun (choice, value) => .choose choice value

/-! ## What is written is understood -/

/-- A text that looks neither like an option nor like the value behind an equals sign. -/
def IsWord (value : List Char) : Prop := ∃ c rest, value = c :: rest ∧ c ≠ '-' ∧ c ≠ '='

namespace Argument

variable {value : List Char}

theorem ofText_of_isWord (word : IsWord value) : ofText value = .plain value := by
  obtain ⟨c, rest, rfl, dash, -⟩ := word
  unfold ofText
  split <;> simp_all

theorem attachedValue?_of_isWord (word : IsWord value) : attachedValue? value = some value := by
  obtain ⟨c, rest, rfl, -, equals⟩ := word
  unfold attachedValue?
  split <;> simp_all

theorem ofText_long (choice : Choice) :
    ofText ("--".toList ++ choice.longName) = .long choice.longName none := by
  cases choice <;> rfl

theorem ofText_longJoined (choice : Choice) (value : List Char) :
    ofText ("--".toList ++ choice.longName ++ '=' :: value) =
      .long choice.longName (some value) := by
  cases choice <;> rfl

theorem meaning_long (choice : Choice) (value? : Option (List Char)) :
    (long choice.longName value?).meaning = optionFor choice value? := by
  cases choice <;> rfl

end Argument

namespace Directive

variable {choice : Choice} {argument next value : List Char}

/-- An option that has its value takes one argument. -/
theorem ofArguments_complete {directive : Directive}
    (h : (Argument.ofText argument).meaning = .complete directive) (more : List (List Char)) :
    ofArguments (argument :: more) = directive :: ofArguments more := by
  rw [ofArguments, h]

/-- An option that awaits its value takes two. -/
theorem ofArguments_awaiting (h : (Argument.ofText argument).meaning = .awaiting choice)
    (plain : Argument.ofText next = .plain value) (more : List (List Char)) :
    ofArguments (argument :: next :: more) = .choose choice value :: ofArguments more := by
  rw [ofArguments, h]
  simp only [plain]

end Directive

theorem Written.ofArguments {choice : Choice} {value : List Char} {arguments : List (List Char)}
    (h : Written choice value arguments) (word : IsWord value) (more : List (List Char)) :
    Directive.ofArguments (arguments ++ more) =
      .choose choice value :: Directive.ofArguments more := by
  have plain := Argument.ofText_of_isWord word
  cases h with
  | long =>
    refine Directive.ofArguments_awaiting ?_ plain more
    rw [Argument.ofText_long, Argument.meaning_long]
    rfl
  | longJoined =>
    refine Directive.ofArguments_complete ?_ more
    rw [Argument.ofText_longJoined, Argument.meaning_long]
    rfl
  | short => exact Directive.ofArguments_awaiting rfl plain more
  | shortAttached =>
    refine Directive.ofArguments_complete ?_ more
    change Argument.optionFor .language (Argument.attachedValue? value) = _
    rw [Argument.attachedValue?_of_isWord word]
    rfl
  | shortJoined => exact Directive.ofArguments_complete rfl more

theorem Given.ofArguments {given : List (Choice × List Char)} {arguments : List (List Char)}
    (h : Given given arguments) (words : ∀ p ∈ given, IsWord p.2) :
    Directive.ofArguments arguments = Directive.choices given := by
  induction h with
  | nil => rfl
  | cons written _ ih =>
    rw [written.ofArguments (words _ List.mem_cons_self),
      ih fun p member => words p (List.mem_cons_of_mem _ member)]
    rfl

/-! ## What is understood is written -/

theorem Directive.misuse_ne_choices (given : List (Choice × List Char)) :
    [.misuse] ≠ choices given := by
  cases given <;> simp [choices]

namespace Argument

/-- The argument that looks so. -/
def text : Argument → List Char
  | .terminator => "--".toList
  | .long name none => "--".toList ++ name
  | .long name (some value) => "--".toList ++ name ++ '=' :: value
  | .short letter attached => '-' :: letter :: attached
  | .plain text => text

theorem text_ofText (argument : List Char) : (ofText argument).text = argument := by
  unfold ofText
  split
  · rfl
  · rename_i body _
    have whole := List.takeWhile_append_dropWhile (p := (· != '=')) (l := body)
    have first := List.head?_dropWhile_not (· != '=') body
    cases behind : body.dropWhile (· != '=') with
    | nil =>
      rw [behind, List.append_nil] at whole
      simp only [text, whole]
      rfl
    | cons c value =>
      rw [behind] at whole first
      have equals : c = '=' := by simpa using first
      rw [equals] at whole
      simp only [text, List.append_assoc, whole]
      rfl
  · rfl
  · rfl

/-- Two dashes end the options; an option for a choice has its value or awaits it; nothing else
makes a choice. -/
theorem meaning_cases (look : Argument) :
    (look = .terminator ∧ look.meaning = .last) ∨
    (∃ directive, look.meaning = .complete directive ∧
      ∀ choice value, directive ≠ .choose choice value) ∨
    (∃ choice value?, look.meaning = optionFor choice value? ∧
      (look = .long choice.longName value? ∨
        choice = .language ∧ ∃ attached, value? = attachedValue? attached ∧
          look = .short 'l' attached)) := by
  cases look with
  | terminator => exact .inl ⟨rfl, rfl⟩
  | plain text => exact .inr (.inl ⟨.misuse, rfl, by simp⟩)
  | long name value? =>
    right
    simp only [meaning]
    split
    · exact .inl ⟨_, rfl, by split <;> simp⟩
    · split
      · exact .inl ⟨_, rfl, by split <;> simp⟩
      · cases found : Choice.ofLongName? name with
        | none => exact .inl ⟨.misuse, rfl, by simp⟩
        | some choice =>
          have name_eq : choice.longName = name := by simpa using List.find?_some found
          exact .inr ⟨choice, value?, rfl, .inl (by rw [name_eq])⟩
  | short letter attached =>
    right
    simp only [meaning]
    split
    · exact .inl ⟨.version, rfl, by simp⟩
    · split
      · exact .inl ⟨.help, rfl, by simp⟩
      · split
        · rename_i _ _ same
          exact .inr ⟨.language, _, rfl, .inr ⟨rfl, attached, rfl, by rw [same]⟩⟩
        · exact .inl ⟨.misuse, rfl, by simp⟩

/-- What is attached to a short option is its value, perhaps behind an equals sign. -/
theorem attachedValue?_eq_some {attached value : List Char}
    (h : attachedValue? attached = some value) :
    attached = value ∨ attached = '=' :: value := by
  unfold attachedValue? at h
  split at h
  · contradiction
  · exact .inr (congrArg _ (Option.some.inj h))
  · exact .inl (Option.some.inj h)

theorem attachedValue?_eq_none {attached : List Char} (h : attachedValue? attached = none) :
    attached = [] := by
  unfold attachedValue? at h
  split at h
  · rfl
  · contradiction
  · contradiction

variable {look : Argument} {choice : Choice}

/-- An argument that makes a choice by itself is an option joined with its value. -/
theorem written_of_meaning {value : List Char}
    (h : look.meaning = .complete (.choose choice value)) : Written choice value [look.text] := by
  rcases look.meaning_cases with ⟨-, last⟩ | ⟨_, other, no⟩ | ⟨choice', value?, option, shape⟩
  · rw [last] at h
    contradiction
  · rw [other] at h
    exact absurd (Meaning.complete.inj h) (no _ _)
  · rw [option] at h
    cases value? with
    | none => contradiction
    | some value' =>
      obtain ⟨rfl, rfl⟩ : choice' = choice ∧ value' = value := by simpa [optionFor] using h
      rcases shape with rfl | ⟨rfl, attached, has, rfl⟩
      · exact .longJoined _ _
      · rcases attachedValue?_eq_some has.symm with rfl | rfl
        · exact .shortAttached _
        · exact .shortJoined _

/-- An argument that awaits a value is the name of an option. -/
theorem written_of_awaiting (value : List Char) (h : look.meaning = .awaiting choice) :
    Written choice value [look.text, value] := by
  rcases look.meaning_cases with ⟨-, last⟩ | ⟨_, other, -⟩ | ⟨choice', value?, option, shape⟩
  · rw [last] at h
    contradiction
  · rw [other] at h
    contradiction
  · rw [option] at h
    cases value? with
    | some value' => contradiction
    | none =>
      obtain rfl : choice' = choice := by simpa [optionFor] using h
      rcases shape with rfl | ⟨rfl, attached, has, rfl⟩
      · exact .long _ _
      · obtain rfl := attachedValue?_eq_none has.symm
        exact .short _

theorem eq_terminator_of_meaning (h : look.meaning = .last) : look = .terminator := by
  rcases look.meaning_cases with ⟨same, -⟩ | ⟨_, other, -⟩ | ⟨_, value?, option, -⟩
  · exact same
  · rw [other] at h
    contradiction
  · rw [option] at h
    cases value? <;> contradiction

end Argument

/-- Arguments that make choices, and nothing else, are options written one after another. Two dashes
may stand at the end. The induction is on the arguments, as they are read. -/
theorem exists_given {arguments : List (List Char)} {given : List (Choice × List Char)}
    (h : Directive.ofArguments arguments = Directive.choices given) :
    ∃ options, Given given options ∧
      (arguments = options ∨ arguments = options ++ ["--".toList]) := by
  induction arguments using Directive.ofArguments.induct generalizing given with
  | case1 =>
    cases given with
    | nil => exact ⟨[], .nil, .inl rfl⟩
    | cons p given => contradiction
  | case2 argument more directive complete ih =>
    rw [Directive.ofArguments_complete complete] at h
    cases given with
    | nil => contradiction
    | cons _ given =>
      obtain ⟨rfl, others⟩ := List.cons.inj h
      obtain ⟨options, written, behind⟩ := ih others
      have first := Argument.written_of_meaning complete
      rw [Argument.text_ofText] at first
      exact ⟨argument :: options, .cons first written,
        behind.imp (congrArg (argument :: ·)) (congrArg (argument :: ·))⟩
  | case3 argument last =>
    have dashes := congrArg Argument.text (Argument.eq_terminator_of_meaning last)
    rw [Argument.text_ofText] at dashes
    rw [Directive.ofArguments, last] at h
    cases given with
    | nil => exact ⟨[], .nil, .inr (by rw [dashes]; rfl)⟩
    | cons p given => contradiction
  | case4 argument more last nonempty =>
    rw [Directive.ofArguments, last] at h
    simp only [if_neg nonempty] at h
    exact absurd h (Directive.misuse_ne_choices given)
  | case5 argument choice awaiting =>
    rw [Directive.ofArguments, awaiting] at h
    exact absurd h (Directive.misuse_ne_choices given)
  | case6 argument choice awaiting next others value plain ih =>
    rw [Directive.ofArguments_awaiting awaiting plain] at h
    cases given with
    | nil => contradiction
    | cons p given =>
      obtain ⟨same, others'⟩ := List.cons.inj h
      obtain ⟨rfl, rfl⟩ := Directive.choose.inj same
      obtain ⟨options, written, behind⟩ := ih others'
      have first := Argument.written_of_awaiting p.2 awaiting
      have text := congrArg Argument.text plain
      rw [Argument.text_ofText] at first text
      change next = p.2 at text
      subst text
      exact ⟨argument :: p.2 :: options, .cons first written,
        behind.imp (congrArg (argument :: p.2 :: ·)) (congrArg (argument :: p.2 :: ·))⟩
  | case7 argument choice awaiting next others option =>
    rw [Directive.ofArguments, awaiting] at h
    simp only at h
    exact absurd h (Directive.misuse_ne_choices given)

end Reckoner
