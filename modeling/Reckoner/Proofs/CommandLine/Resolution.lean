import Reckoner.CommandLine.Program
import Reckoner.Proofs.CommandLine.Choices

/-!
# Where the settings come from

Each setting has one source: the option if it is given, else the variable if it is set, else there
is none and the default holds (`source?`). `Settings.ofSources?` is what follows from the sources
alone, and `Outcome.ofRun_eq` says that this is all that the arguments and the environment decide.
Neither the order of the options nor the way they are written has a part in it, and a variable has
none where its option is given.
-/

namespace Reckoner

/-! ## Sources -/

/-- The text that decides a choice: the option's value if it is given, else that of the variable. -/
def source? (given : List (Choice × List Char)) (environment : Environment) (choice : Choice) :
    Option (List Char) :=
  (given.lookup choice).or ((environment choice.variableName).map String.toList)

/-- The value that follows from a source; the default holds where there is none. -/
def Choice.valueOf? (choice : Choice) : Option (List Char) → Option choice.Value
  | some text => choice.read? text
  | none => some choice.default

/-- The settings that follow from the sources of all choices. -/
def Settings.ofSources? (source? : Choice → Option (List Char)) : Option Settings := do
  return { language := ← Choice.valueOf? .language (source? .language)
           maxOperators := ← Choice.valueOf? .maxOperators (source? .maxOperators)
           maxDepth := ← Choice.valueOf? .maxDepth (source? .maxDepth) }

namespace Settings

variable {source : Choice → Option (List Char)}

theorem ofSources?_eq_some_iff {settings : Settings} :
    ofSources? source = some settings ↔
      ∀ choice, choice.valueOf? (source choice) = some (settings.get choice) := by
  simp only [ofSources?, Option.bind_eq_bind, Option.bind_eq_some_iff, Option.pure_def,
    Option.some.injEq]
  constructor
  · rintro ⟨language, first, operators, second, depth, third, rfl⟩ choice
    cases choice
    · exact first
    · exact second
    · exact third
  · intro all
    exact ⟨_, all .language, _, all .maxOperators, _, all .maxDepth, rfl⟩

theorem ofSources?_eq_none_iff :
    ofSources? source = none ↔
      ∃ choice text, source choice = some text ∧ choice.read? text = none := by
  constructor
  · intro refused
    by_contra all
    have valued : ∀ choice : Choice, ∃ value, choice.valueOf? (source choice) = some value := by
      intro choice
      cases found : source choice with
      | none => exact ⟨_, rfl⟩
      | some text =>
        exact Option.ne_none_iff_exists'.1 fun unreadable => all ⟨choice, text, found, unreadable⟩
    choose value all_eq using valued
    have resolved : ofSources? source =
        some ⟨value .language, value .maxOperators, value .maxDepth⟩ :=
      ofSources?_eq_some_iff.2 fun choice => by cases choice <;> exact all_eq _
    rw [refused] at resolved
    contradiction
  · rintro ⟨choice, text, found, unreadable⟩
    rw [Option.eq_none_iff_forall_ne_some]
    intro settings resolved
    have value := ofSources?_eq_some_iff.1 resolved choice
    rw [found, Choice.valueOf?, unreadable] at value
    contradiction

end Settings

/-- Where no option is given twice, the one that is given is found. -/
theorem lookup_eq_some_iff_mem {given : List (Choice × List Char)}
    (once : (given.map Prod.fst).Nodup) {choice : Choice} {text : List Char} :
    given.lookup choice = some text ↔ (choice, text) ∈ given := by
  constructor
  · intro found
    obtain ⟨before, after, rfl, -⟩ := List.lookup_eq_some_iff.1 found
    simp
  · intro member
    obtain ⟨before, after, rfl⟩ := List.append_of_mem member
    rw [List.map_append, List.nodup_append] at once
    refine List.lookup_eq_some_iff.2 ⟨before, after, rfl, fun p earlier => ?_⟩
    have apart := once.2.2 p.1 (List.mem_map.2 ⟨p, earlier, rfl⟩) choice (by simp)
    simpa using apart.symm

section Run

variable {given given' : List (Choice × List Char)} {arguments : List (List Char)}
variable {environment : Environment}

/-- An option that is given is the source of its choice. -/
theorem source?_of_mem (once : (given.map Prod.fst).Nodup) {choice : Choice} {text : List Char}
    (member : (choice, text) ∈ given) : source? given environment choice = some text := by
  rw [source?, (lookup_eq_some_iff_mem once).2 member, Option.some_or]

/-- Where no option is given, the variable is. -/
theorem source?_of_not_mem {choice : Choice} (absent : choice ∉ given.map Prod.fst) :
    source? given environment choice = (environment choice.variableName).map String.toList := by
  have none : given.lookup choice = none := by
    rw [List.lookup_eq_none_iff]
    rintro p member
    rw [bne_iff_ne]
    rintro rfl
    exact absent (List.mem_map.2 ⟨p, member, rfl⟩)
  rw [source?, none, Option.none_or]

/-- The options are found in any order. -/
theorem source?_eq_of_perm (once : (given.map Prod.fst).Nodup) (perm : given'.Perm given) :
    source? given' environment = source? given environment := by
  have once' : (given'.map Prod.fst).Nodup := (perm.map Prod.fst).nodup_iff.2 once
  funext choice
  by_cases present : choice ∈ given.map Prod.fst
  · obtain ⟨⟨_, text⟩, member, rfl⟩ := List.mem_map.1 present
    rw [source?_of_mem once member, source?_of_mem once' (perm.mem_iff.2 member)]
  · have present' : choice ∉ given'.map Prod.fst := mt (perm.map Prod.fst).mem_iff.1 present
    rw [source?_of_not_mem present, source?_of_not_mem present']

/-- The variable of an option that is given is no source. -/
theorem source?_eq_of_agree {environment' : Environment} (once : (given.map Prod.fst).Nodup)
    (agree : ∀ choice, choice ∉ given.map Prod.fst →
      environment' choice.variableName = environment choice.variableName) :
    source? given environment' = source? given environment := by
  funext choice
  by_cases present : choice ∈ given.map Prod.fst
  · obtain ⟨⟨_, text⟩, member, rfl⟩ := List.mem_map.1 present
    rw [source?_of_mem once member, source?_of_mem once member]
  · rw [source?_of_not_mem present, source?_of_not_mem present, agree choice present]

/-- If every source holds a value, the settings follow. -/
theorem exists_ofSources? (once : (given.map Prod.fst).Nodup)
    (valid : ∀ p ∈ given, (p.1.read? p.2).isSome)
    (readable : ∀ choice, choice ∉ given.map Prod.fst → ∀ text,
      environment choice.variableName = some text → (choice.read? text.toList).isSome) :
    ∃ settings, Settings.ofSources? (source? given environment) = some settings := by
  rw [← Option.ne_none_iff_exists', Ne, Settings.ofSources?_eq_none_iff]
  rintro ⟨choice, text, found, unreadable⟩
  have value : (choice.read? text).isSome := by
    by_cases present : choice ∈ given.map Prod.fst
    · obtain ⟨⟨_, text'⟩, member, rfl⟩ := List.mem_map.1 present
      rw [source?_of_mem once member] at found
      exact Option.some.inj found ▸ valid _ member
    · rw [source?_of_not_mem present] at found
      obtain ⟨text', set, rfl⟩ := Option.map_eq_some_iff.1 found
      exact readable choice present text' set
  rw [unreadable] at value
  contradiction

/-- Settings with their sources: an option goes before its variable, and a variable before the
default. -/
structure Settings.ChosenBy (settings : Settings) (given : List (Choice × List Char))
    (environment : Environment) : Prop where
  byOption : ∀ choice text, (choice, text) ∈ given →
    choice.read? text = some (settings.get choice)
  byVariable : ∀ choice, choice ∉ given.map Prod.fst → ∀ text,
    environment choice.variableName = some text →
      choice.read? text.toList = some (settings.get choice)
  byDefault : ∀ choice, choice ∉ given.map Prod.fst → environment choice.variableName = none →
    settings.get choice = choice.default

theorem Settings.chosenBy_of_ofSources? {settings : Settings} (once : (given.map Prod.fst).Nodup)
    (resolved : ofSources? (source? given environment) = some settings) :
    settings.ChosenBy given environment where
  byOption choice text member := by
    have own := ofSources?_eq_some_iff.1 resolved choice
    rwa [source?_of_mem once member] at own
  byVariable choice absent text set := by
    have own := ofSources?_eq_some_iff.1 resolved choice
    rwa [source?_of_not_mem absent, set] at own
  byDefault choice absent unset := by
    have own := ofSources?_eq_some_iff.1 resolved choice
    rw [source?_of_not_mem absent, unset] at own
    exact (Option.some.inj own).symm

/-! ## Runs -/

/-- The choices made are those of the options given, with the values that these have. -/
def Chosen.Follows (chosen : Chosen) (given : List (Choice × List Char)) : Prop :=
  ∀ choice : Choice,
    (∃ text value, given.lookup choice = some text ∧ choice.read? text = some value ∧
      chosen.get? choice = some value) ∨
    (given.lookup choice = none ∧ chosen.get? choice = none)

theorem exists_ofArguments? (written : Given given arguments) (once : (given.map Prod.fst).Nodup)
    (valid : ∀ p ∈ given, (p.1.read? p.2).isSome) :
    ∃ chosen, Request.ofArguments? arguments = some (.converse chosen) ∧ chosen.Follows given := by
  have words : ∀ p ∈ given, IsWord p.2 := by
    intro p member
    obtain ⟨value, read⟩ := Option.isSome_iff_exists.1 (valid p member)
    exact Choice.isWord_of_read? read
  have fresh : ∀ choice, Chosen.get? {} choice = none := fun choice => by cases choice <;> rfl
  obtain ⟨chosen, asked, made⟩ := Chosen.exists_ofDirectives? once valid fun p _ => fresh p.1
  refine ⟨chosen, by rw [Request.ofArguments?, written.ofArguments words, asked], fun choice => ?_⟩
  have own := made choice
  rw [fresh, Option.or_none] at own
  cases found : given.lookup choice with
  | none => exact .inr ⟨rfl, by rw [own, found]; rfl⟩
  | some text =>
    obtain ⟨value, read⟩ :=
      Option.isSome_iff_exists.1 (valid _ ((lookup_eq_some_iff_mem once).1 found))
    exact .inl ⟨text, value, rfl, read, by rw [own, found]; exact read⟩

/-- Options and variables resolve to what their sources say. -/
theorem Chosen.Follows.resolve? {chosen : Chosen} (h : chosen.Follows given)
    (environment : Environment) :
    chosen.resolve? environment = Settings.ofSources? (source? given environment) := by
  rcases Chosen.resolve?_cases environment chosen with
    ⟨refused, choice, free, text, set, unreadable⟩ | ⟨settings, resolved, all⟩
  · rw [refused, eq_comm, Settings.ofSources?_eq_none_iff]
    rcases h choice with ⟨_, _, _, _, made⟩ | ⟨absent, -⟩
    · rw [free] at made
      contradiction
    · exact ⟨choice, text.toList, by rw [source?, absent, set]; rfl, unreadable⟩
  · rw [resolved, eq_comm, Settings.ofSources?_eq_some_iff]
    intro choice
    obtain ⟨readable, value_eq⟩ := all choice
    rw [value_eq, source?]
    rcases h choice with ⟨text, value, found, read, made⟩ | ⟨absent, free⟩
    · rw [found, made]
      exact read
    · rw [absent, free, Option.none_or, Option.none_or, Chosen.fromVariable?]
      cases set : environment choice.variableName with
      | none => rfl
      | some text =>
        cases read : choice.read? text.toList with
        | none => exact absurd ⟨free, text, set, read⟩ readable
        | some value => simp [Choice.valueOf?, read]

namespace Outcome

/-- What options that are given once each, with valid values, ask for is a dialogue with the
settings that follow from the sources; there is none if a variable that is needed holds no value. -/
theorem ofRun_eq (written : Given given arguments) (once : (given.map Prod.fst).Nodup)
    (valid : ∀ p ∈ given, (p.1.read? p.2).isSome) (environment : Environment)
    (stdin : List UInt8) :
    ofRun arguments environment stdin =
      match Settings.ofSources? (source? given environment) with
      | none => misuse
      | some settings => ofTranscript (settings.converse none stdin) := by
  obtain ⟨chosen, asked, follows⟩ := exists_ofArguments? written once valid
  have resolved := follows.resolve? environment
  rw [ofRun, Plan.ofArguments, asked]
  cases sources : Settings.ofSources? (source? given environment) with
  | none => simp only [resolved, sources]
  | some settings => simp only [resolved, sources]

theorem ofTranscript_stdout (transcript : Transcript) :
    (ofTranscript transcript).stdout = transcript.output := by
  unfold ofTranscript ofDialogue
  split <;> rfl

theorem ofTranscript_exitCode (transcript : Transcript) :
    (ofTranscript transcript).exitCode = if transcript.ending = .finished then 0 else 1 := by
  unfold ofTranscript ofDialogue
  cases transcript.ending <;> rfl

/-- What a run makes of the options it is given, of the variables and of standard input. -/
structure FollowsOptions (given : List (Choice × List Char)) (arguments : List (List Char))
    (environment : Environment) (stdin : List UInt8) : Prop where
  /-- The order of the options and the ways they are written make no difference. -/
  rewritten : ∀ given' arguments', given'.Perm given → Given given' arguments' →
    ofRun arguments' environment stdin = ofRun arguments environment stdin
  /-- Neither does what the variables of the options given hold. -/
  overruled : ∀ environment' : Environment,
    (∀ choice, choice ∉ given.map Prod.fst →
      environment' choice.variableName = environment choice.variableName) →
    ofRun arguments environment' stdin = ofRun arguments environment stdin
  /-- Where every variable that is needed holds a value, the dialogue is held on standard input. -/
  held : (∀ choice, choice ∉ given.map Prod.fst → ∀ text,
      environment choice.variableName = some text → (choice.read? text.toList).isSome) →
    ∃ settings : Settings, settings.ChosenBy given environment ∧
      (ofRun arguments environment stdin).stdout = (settings.converse none stdin).output ∧
      (ofRun arguments environment stdin).exitCode =
        if (settings.converse none stdin).ending = .finished then 0 else 1
  /-- Where one holds none, if only because it is empty, nothing is printed. -/
  unreadable : ∀ choice, choice ∉ given.map Prod.fst → ∀ text,
    environment choice.variableName = some text → choice.read? text.toList = none →
    (ofRun arguments environment stdin).exitCode = 2 ∧
    (ofRun arguments environment stdin).stdout = []
  /-- A size is digits, perhaps behind a plus, of a value that fits in sixty-four bits. -/
  sizes : ∀ text size, readSize? text = some size ↔
    ∃ digits, (text = digits ∨ text = '+' :: digits) ∧ digits ≠ [] ∧
      (∀ c ∈ digits, c.isDigit = true) ∧ Nat.ofDigitChars 10 digits 0 = size ∧ size < 2 ^ 64
  /-- There are no other ways to write options than those listed, up to two dashes at the end. -/
  spellings : ∀ arguments' given', Directive.ofArguments arguments' = Directive.choices given' →
    ∃ options, Given given' options ∧
      (arguments' = options ∨ arguments' = options ++ ["--".toList])

/-- The command line resolves its settings consistently, for options that are given once each, with
valid values. -/
theorem ofRun_options (written : Given given arguments) (once : (given.map Prod.fst).Nodup)
    (valid : ∀ p ∈ given, (p.1.read? p.2).isSome) (environment : Environment)
    (stdin : List UInt8) : FollowsOptions given arguments environment stdin where
  rewritten given' arguments' perm written' := by
    have once' : (given'.map Prod.fst).Nodup := (perm.map Prod.fst).nodup_iff.2 once
    have valid' : ∀ p ∈ given', (p.1.read? p.2).isSome := fun p member =>
      valid p (perm.mem_iff.1 member)
    rw [ofRun_eq written' once' valid', ofRun_eq written once valid, source?_eq_of_perm once perm]
  overruled environment' agree := by
    rw [ofRun_eq written once valid, ofRun_eq written once valid, source?_eq_of_agree once agree]
  held readable := by
    obtain ⟨settings, resolved⟩ := exists_ofSources? once valid readable
    have outcome := ofRun_eq written once valid environment stdin
    rw [resolved] at outcome
    exact ⟨settings, Settings.chosenBy_of_ofSources? once resolved,
      by rw [outcome, ofTranscript_stdout], by rw [outcome, ofTranscript_exitCode]⟩
  unreadable choice absent text set refused := by
    have none : Settings.ofSources? (source? given environment) = none :=
      Settings.ofSources?_eq_none_iff.2
        ⟨choice, text.toList, by rw [source?_of_not_mem absent, set]; rfl, refused⟩
    have outcome := ofRun_eq written once valid environment stdin
    rw [none] at outcome
    rw [outcome]
    exact ⟨rfl, rfl⟩
  sizes _ _ := readSize?_eq_some_iff
  spellings _ _ := exists_given

/-- Two options in two orders and several ways of writing, with a variable that is overruled, a
variable that is used, and one that is used and empty. -/
theorem ofRun_options_russian :
    let given : List (Choice × List Char) :=
      [(.maxDepth, "+007".toList), (.language, "russian".toList)]
    let arguments := ["--max-depth=+007".toList, "-lrussian".toList]
    let environment (operators : String) : Environment := fun name =>
      if name = "LINECALC_LANGUAGE" then some "deutsch"
      else if name = "LINECALC_MAX_OPERATORS" then some operators
      else none
    Given given arguments ∧ (given.map Prod.fst).Nodup ∧
    (∀ p ∈ given, (p.1.read? p.2).isSome) ∧
    ofRun ["-l".toList, "russian".toList, "--max-depth".toList, "+007".toList] (environment "3")
        (utf8 "1+1".toList) =
      ofRun arguments (environment "3") (utf8 "1+1".toList) ∧
    (ofRun arguments (environment "3") (utf8 "1+1".toList)).stdout =
      (Settings.converse ⟨.russian, 3, 7⟩ none (utf8 "1+1".toList)).output ∧
    (ofRun arguments (environment "") (utf8 "1+1".toList)).exitCode = 2 := by
  intro given arguments environment
  have written : Given given arguments :=
    .cons (.longJoined .maxDepth _) (.cons (.shortAttached _) .nil)
  have written' : Given given.reverse
      ["-l".toList, "russian".toList, "--max-depth".toList, "+007".toList] :=
    .cons (.short _) (.cons (.long .maxDepth _) .nil)
  have once : (given.map Prod.fst).Nodup := by decide
  have valid : ∀ p ∈ given, (p.1.read? p.2).isSome := by
    simp only [given, List.mem_cons, List.not_mem_nil, or_false, forall_eq_or_imp, forall_eq]
    decide
  have others : ∀ choice, choice ∉ given.map Prod.fst ↔ choice = .maxOperators := by
    intro choice
    cases choice <;> decide
  have follows (operators : String) :=
    ofRun_options written once valid (environment operators) (utf8 "1+1".toList)
  have readable : ∀ choice, choice ∉ given.map Prod.fst → ∀ text,
      environment "3" choice.variableName = some text → (choice.read? text.toList).isSome := by
    intro choice absent text set
    obtain rfl := (others choice).1 absent
    cases (set : some "3" = some text)
    decide
  obtain ⟨settings, chosen, stdout, -⟩ := (follows "3").held readable
  have settings_eq : settings = ⟨.russian, 3, 7⟩ := by
    refine Settings.ext_get fun choice => Option.some.inj ?_
    cases choice with
    | language => exact (chosen.byOption .language "russian".toList (.tail _ (.head _))).symm
    | maxOperators => exact (chosen.byVariable .maxOperators (by decide) "3" rfl).symm
    | maxDepth => exact (chosen.byOption .maxDepth "+007".toList (.head _)).symm
  exact ⟨written, once, valid,
    (follows "3").rewritten _ _ (List.reverse_perm given) written', settings_eq ▸ stdout,
    ((follows "").unreadable .maxOperators (by decide) "" rfl (by decide)).1⟩

end Outcome
end Run

end Reckoner
