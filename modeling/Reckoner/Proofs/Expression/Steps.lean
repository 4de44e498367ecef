import Reckoner.Proofs.Expression.Moves
import Reckoner.Proofs.Text.Cursor

/-!
# Reading in steps of a cursor

The reader works on the list of remaining characters, but whatever it does there is done by steps
that a cursor has too: it looks for symbols, closes parentheses and tells openings apart by what
such steps answer (`accept?_eq_onList`, `closing_eq_onList`, `Opening.ofText_eq_ofSteps`), and each
of its moves is a sequence of them (`Moves.leads`). So a cursor can go along with the reader, and it
stands at last in front of what the reader has left (`Cursor.exists_trace_read`).
-/

namespace Reckoner

open Step (onList traceList)

variable {s r rest : List Char} {c : Char}

/-! ## Symbols -/

theorem Step.onList_accept_of_eq_some (found : accept? c s = some rest) :
    onList (.accept c) s = (true, rest) := by
  rw [onList, found]

theorem Step.onList_accept_of_eq_none (missing : accept? c s = none) :
    onList (.accept c) s = (false, skipSpaces s) := by
  rw [onList, missing]

theorem accept?_eq_onList (c : Char) (s : List Char) :
    accept? c s = if (onList (.accept c) s).1 then some (onList (.accept c) s).2 else none := by
  cases found : accept? c s with
  | some rest => rw [Step.onList_accept_of_eq_some found, if_pos rfl]
  | none => rw [Step.onList_accept_of_eq_none found, if_neg Bool.false_ne_true]

theorem closing_eq_onList (s : List Char) : closing s = (onList (.accept ')') s).2 := by
  rw [closing]
  cases found : accept? ')' s with
  | some rest => rw [Step.onList_accept_of_eq_some found]
  | none => rw [Step.onList_accept_of_eq_none found]

/-! ## Openings -/

namespace Opening

/-- What is neither a symbol nor a name, told by its first character. -/
def ofFirst (s : List Char) : Opening :=
  match s.head? with
  | none => .nothing
  | some c =>
    if isDigitOrDot c then
      let (run, rest) := onList (.takeRun isDigitOrDot) s
      .number run rest
    else if c.isLower then
      let (run, rest) := onList (.takeRun Char.isLower) s
      .word run rest
    else .other c s

/-- What begins with no symbol: the names are tried one after the other. -/
def ofWords (s : List Char) : Opening :=
  let (power, s) := onList (.acceptWord Builtin.power.name) s
  if power then .builtin .power s
  else
    let (floor, s) := onList (.acceptWord Builtin.floor.name) s
    if floor then .builtin .floor s
    else ofFirst s

/-- The opening at the front of a text, found by steps: the signs and the parenthesis are tried
first. -/
def ofSteps (s : List Char) : Opening :=
  let (plus, s) := onList (.accept '+') s
  if plus then .sign .positive s
  else
    let (minus, s) := onList (.accept '-') s
    if minus then .sign .negative s
    else
      let (opens, s) := onList (.accept '(') s
      if opens then .parenthesis s
      else ofWords s

end Opening

theorem Step.onList_acceptWord_append (word rest : List Char) :
    onList (.acceptWord word) (word ++ rest) = (true, rest) := by
  rw [onList, if_pos (List.isPrefixOf_iff_prefix.2 (List.prefix_append word rest)),
    List.drop_left]

theorem Step.onList_acceptWord_of_ne {word : List Char} (missing : ∀ rest, s ≠ word ++ rest) :
    onList (.acceptWord word) s = (false, s) := by
  rw [onList, if_neg]
  intro begins
  obtain ⟨rest, same⟩ := List.isPrefixOf_iff_prefix.1 begins
  exact missing rest same.symm

theorem accept?_skipSpaces (c : Char) (s : List Char) : accept? c (skipSpaces s) = accept? c s := by
  rw [accept?, accept?, skipSpaces_skipSpaces]

/-- Reading looks at the first character before it takes a run, and the step does so while it takes
it. -/
theorem Opening.ofFirst_cons (c : Char) (rest : List Char) :
    ofFirst (c :: rest) =
      if isDigitOrDot c then
        .number (c :: rest.takeWhile isDigitOrDot) (rest.dropWhile isDigitOrDot)
      else if c.isLower then
        .word (c :: rest.takeWhile Char.isLower) (rest.dropWhile Char.isLower)
      else .other c (c :: rest) := by
  rw [ofFirst, List.head?_cons]
  cases digit : isDigitOrDot c with
  | true => simp [onList, digit]
  | false =>
    cases letter : c.isLower with
    | true => simp [onList, digit, letter]
    | false => simp [digit, letter]

/-- Behind the symbols, which have been looked for, the two ways to find an opening go on alike. -/
theorem Opening.ofTrimmed_eq_ofWords (noSign : ∀ mark : Sign, s.head? ≠ some mark.symbol)
    (noParen : s.head? ≠ some '(') : ofTrimmed s = ofWords s := by
  cases named : Builtin.leading? s with
  | some found =>
    obtain ⟨function, rest⟩ := found
    obtain rfl := Builtin.leading?_eq_some_iff.1 named
    rw [ofTrimmed_eq_of_describes (o := .builtin function rest) rfl]
    cases function with
    | power => simp only [ofWords, Step.onList_acceptWord_append, if_true]
    | floor =>
      have other (behind : List Char) :
          Builtin.floor.name ++ rest ≠ Builtin.power.name ++ behind := by
        intro same
        rw [Builtin.leading?_eq_some_iff.2 same] at named
        cases named
      simp only [ofWords, Step.onList_acceptWord_of_ne other, Step.onList_acceptWord_append,
        Bool.false_eq_true, if_false, if_true]
  | none =>
    have noName := Builtin.leading?_eq_none_iff.1 named
    simp only [ofWords, Step.onList_acceptWord_of_ne (noName .power),
      Step.onList_acceptWord_of_ne (noName .floor), Bool.false_eq_true, if_false]
    cases s with
    | nil => rfl
    | cons c rest =>
      have sign : Sign.ofSymbol? c = none :=
        Sign.ofSymbol?_eq_none_iff.2 fun mark same => noSign mark (congrArg some same.symm)
      have paren : c ≠ '(' := fun same => noParen (congrArg some same)
      simp only [ofTrimmed, sign, if_neg paren, named, ofFirst_cons]

/-- What opens an operand is found by steps. -/
theorem Opening.ofText_eq_ofSteps (s : List Char) : ofText s = ofSteps s := by
  have missing {c : Char} (none : accept? c s = none) : (skipSpaces s).head? ≠ some c := by
    intro first
    obtain ⟨rest, ahead⟩ := List.head?_eq_some_iff.1 first
    exact accept?_eq_none_iff.1 none rest ahead
  -- behind the first symbol that is looked for, the spaces have been passed over
  have again (c : Char) := accept?_skipSpaces c s
  cases plus : accept? '+' s with
  | some rest =>
    simp only [ofSteps, Step.onList_accept_of_eq_some plus, if_true]
    exact ofText_eq_iff.2 (accept?_eq_some_iff.1 plus)
  | none =>
    simp only [ofSteps, Step.onList_accept_of_eq_none plus, Bool.false_eq_true, if_false]
    cases minus : accept? '-' s with
    | some rest =>
      simp only [Step.onList_accept_of_eq_some ((again '-').trans minus), if_true]
      exact ofText_eq_iff.2 (accept?_eq_some_iff.1 minus)
    | none =>
      simp only [Step.onList_accept_of_eq_none ((again '-').trans minus), skipSpaces_skipSpaces,
        Bool.false_eq_true, if_false]
      cases opens : accept? '(' s with
      | some rest =>
        simp only [Step.onList_accept_of_eq_some ((again '(').trans opens), if_true]
        exact ofText_eq_iff.2 (accept?_eq_some_iff.1 opens)
      | none =>
        simp only [Step.onList_accept_of_eq_none ((again '(').trans opens), skipSpaces_skipSpaces,
          Bool.false_eq_true, if_false]
        refine ofTrimmed_eq_ofWords (fun mark => ?_) (missing opens)
        cases mark with
        | positive => exact missing plus
        | negative => exact missing minus

/-! ## Moves -/

/-- The steps that the reader takes: it looks for its symbols and names, and takes its runs. -/
def Step.OfReader : Step → Prop
  | .advance => False
  | .accept c => c ∈ innerSymbols
  | .acceptWord word => ∃ function : Builtin, word = function.name
  | .takeRun accepts => accepts = isDigitOrDot ∨ accepts = Char.isLower

/-- Steps of the reader lead from the first text to the second. -/
def Step.Leads (s r : List Char) : Prop :=
  ∃ steps, (∀ step ∈ steps, step.OfReader) ∧ (traceList steps s).2 = r

namespace Step.Leads

theorem refl (s : List Char) : Leads s s := ⟨[], by simp, rfl⟩

theorem single (step : Step) (known : step.OfReader) (s : List Char) : Leads s (step.onList s).2 :=
  ⟨[step], by simpa using known, rfl⟩

theorem trans {m : List Char} (h : Leads s m) (h' : Leads m r) : Leads s r := by
  obtain ⟨steps, known, rfl⟩ := h
  obtain ⟨more, known', rfl⟩ := h'
  refine ⟨steps ++ more, fun step member => ?_, ?_⟩
  · exact (List.mem_append.1 member).elim (known step) (known' step)
  · clear known known'
    induction steps generalizing s with
    | nil => rfl
    | cons step steps ih => exact ih

theorem symbol (listed : c ∈ innerSymbols) (found : accept? c s = some r) : Leads s r := by
  have step := single (.accept c) listed s
  rwa [onList_accept_of_eq_some found] at step

/-- Spaces are passed over in search of a symbol. There are two, and only one of them can be
next. -/
theorem spaces (s : List Char) : Leads s (skipSpaces s) := by
  cases closes : accept? ')' s with
  | none =>
    have listed : ')' ∈ innerSymbols := by decide
    have step := single (.accept ')') listed s
    rwa [onList_accept_of_eq_none closes] at step
  | some rest =>
    have listed : '(' ∈ innerSymbols := by decide
    have step := single (.accept '(') listed s
    have opens : accept? '(' s = none := by
      rw [accept?_eq_none_iff, accept?_eq_some_iff.1 closes]
      exact fun behind same => absurd (List.cons.inj same).1 (by decide)
    rwa [onList_accept_of_eq_none opens] at step

theorem word (function : Builtin) (r : List Char) : Leads (function.name ++ r) r := by
  have step := single (.acceptWord function.name) ⟨function, rfl⟩ (function.name ++ r)
  rwa [onList_acceptWord_append] at step

theorem run {accepts : Char → Bool} (known : accepts = isDigitOrDot ∨ accepts = Char.isLower)
    {run : List Char} (all : run.all accepts = true) (stops : Stops accepts r) :
    Leads (run ++ r) r := by
  have step := single (.takeRun accepts) known (run ++ r)
  rwa [onList, dropWhile_append_of_stops all stops] at step

end Step.Leads

/-- Every move of the reader is a sequence of steps. -/
theorem Moves.leads (h : Moves s r) : Step.Leads s r := by
  cases h with
  | spaces => exact .spaces s
  | symbol listed found => exact .symbol listed found
  | @opening o _ _ opened taken =>
    have describes := Opening.ofText_eq_iff.1 opened
    cases o with
    | sign mark rest =>
      cases taken
      exact .symbol (by cases mark <;> decide) (accept?_eq_some_iff.2 describes)
    | parenthesis rest =>
      cases taken
      exact .symbol (by decide) (accept?_eq_some_iff.2 describes)
    | builtin function rest =>
      cases taken
      have named : skipSpaces s = function.name ++ r := describes
      exact (named ▸ Step.Leads.spaces s).trans (.word function r)
    | number run rest =>
      cases taken
      obtain ⟨ahead, -, all, stops⟩ := describes
      exact (ahead ▸ Step.Leads.spaces s).trans (.run (.inl rfl) all stops)
    | word run rest =>
      cases taken
      obtain ⟨ahead, -, all, stops⟩ := describes
      exact (ahead ▸ Step.Leads.spaces s).trans (.run (.inr rfl) all stops)
    | other c rest => contradiction
    | nothing => contradiction

theorem Reaches.leads (h : Reaches s r) : Step.Leads s r := by
  induction h with
  | refl => exact .refl s
  | tail _ moves ih => exact ih.trans moves.leads

/-- A cursor that takes the steps of the reader stands in front of what the reader has left, also
where the text has been refused. -/
theorem Cursor.exists_trace_read (text : String) (limit room : Nat) (part : Part) :
    ∃ steps, (∀ step ∈ steps, step.OfReader) ∧
      ((start text).trace steps).2.kept.Fits text
        (Reader.remaining (Reader.read limit room part text.toList)) := by
  obtain ⟨steps, known, left⟩ := (Reader.reaches_remaining limit room part text.toList).leads
  obtain ⟨last, traced, fits⟩ := (ByteCursor.Fits.start text).trace? steps
  have same := (Cursor.trace?_eq steps (start text)).symm.trans traced
  obtain ⟨-, kept⟩ := Prod.mk.inj (Option.some.inj same)
  exact ⟨steps, known, by rwa [kept, ← left]⟩

end Reckoner
