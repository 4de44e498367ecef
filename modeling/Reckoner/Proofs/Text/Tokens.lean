import Reckoner.Text.Scan

/-!
# Tokens

`Token` says without any reading step that a text begins with a word behind some spaces; the lemmas
tie it to `skipSpaces`, `accept?` and `closing`. Two texts that agree behind their spaces are alike
to every reading step, so most statements about the reader speak of texts up to leading spaces.

`Stops` says where a longest run of characters ends.
-/

namespace Reckoner

/-- Behind some spaces the text begins with `word`, and `rest` follows. -/
def Token (word s rest : List Char) : Prop :=
  ∃ n, s = List.replicate n ' ' ++ word ++ rest

/-- The first character that is no space is `c`. -/
def Next (c : Char) (s : List Char) : Prop := ∃ rest, Token [c] s rest

/-- The text holds nothing but spaces. -/
def Blank (s : List Char) : Prop := ∃ n, s = List.replicate n ' '

/-- The text does not begin with a character of the class. -/
def Stops (p : Char → Bool) (s : List Char) : Prop := ∀ c ∈ s.head?, p c = false

/-! ## Leading spaces -/

theorem skipSpaces_space (s : List Char) : skipSpaces (' ' :: s) = skipSpaces s := rfl

theorem skipSpaces_of_ne {c : Char} (h : c ≠ ' ') (s : List Char) :
    skipSpaces (c :: s) = c :: s := by
  simp [skipSpaces, h]

@[simp] theorem skipSpaces_replicate_append (n : Nat) (s : List Char) :
    skipSpaces (List.replicate n ' ' ++ s) = skipSpaces s := by
  induction n with
  | zero => rfl
  | succ n ih =>
    rw [List.replicate_succ, List.cons_append, skipSpaces_space, ih]

/-- A text is its leading spaces and what stands behind them. -/
theorem exists_eq_replicate_append_skipSpaces (s : List Char) :
    ∃ n, s = List.replicate n ' ' ++ skipSpaces s := by
  induction s with
  | nil => exact ⟨0, rfl⟩
  | cons c s ih =>
    by_cases space : c = ' '
    · obtain ⟨n, hn⟩ := ih
      refine ⟨n + 1, ?_⟩
      rw [space, skipSpaces_space, List.replicate_succ, List.cons_append, ← hn]
    · exact ⟨0, by rw [skipSpaces_of_ne space]; rfl⟩

theorem ne_space_of_skipSpaces_eq_cons {s rest : List Char} {c : Char}
    (h : skipSpaces s = c :: rest) : c ≠ ' ' := by
  intro space
  have first := List.head?_dropWhile_not (· == ' ') s
  rw [show s.dropWhile (· == ' ') = c :: rest from h] at first
  simp [space] at first

theorem mem_of_skipSpaces_eq_cons {s rest : List Char} {c : Char} (h : skipSpaces s = c :: rest) :
    c ∈ s := by
  have behind : c ∈ skipSpaces s := by
    rw [h]
    exact List.mem_cons_self
  exact (List.dropWhile_sublist _).subset behind

theorem suffix_skipSpaces (s : List Char) : skipSpaces s <:+ s := List.dropWhile_suffix _

theorem suffix_of_skipSpaces_eq {s rest : List Char} {c : Char} (h : skipSpaces s = c :: rest) :
    rest <:+ s :=
  ((List.suffix_cons c rest).trans (h ▸ List.suffix_rfl)).trans (suffix_skipSpaces s)

@[simp] theorem skipSpaces_skipSpaces (s : List Char) :
    skipSpaces (skipSpaces s) = skipSpaces s := by
  cases h : skipSpaces s with
  | nil => rfl
  | cons c rest => exact skipSpaces_of_ne (ne_space_of_skipSpaces_eq_cons h) rest

/-! ## Tokens -/

/-- A word that does not begin with a space is a token exactly if it stands behind the spaces. -/
theorem token_iff {c : Char} {word s rest : List Char} (h : c ≠ ' ') :
    Token (c :: word) s rest ↔ skipSpaces s = c :: word ++ rest := by
  constructor
  · rintro ⟨n, rfl⟩
    rw [List.append_assoc, skipSpaces_replicate_append]
    exact skipSpaces_of_ne h _
  · intro begins
    obtain ⟨n, hn⟩ := exists_eq_replicate_append_skipSpaces s
    exact ⟨n, by rw [List.append_assoc, ← begins]; exact hn⟩

theorem token_singleton_iff {c : Char} {s rest : List Char} (h : c ≠ ' ') :
    Token [c] s rest ↔ skipSpaces s = c :: rest := by
  rw [token_iff h, List.cons_append, List.nil_append]

theorem next_iff {c : Char} {s : List Char} (h : c ≠ ' ') :
    Next c s ↔ ∃ rest, skipSpaces s = c :: rest := by
  simp only [Next, token_singleton_iff h]

theorem blank_iff {s : List Char} : Blank s ↔ skipSpaces s = [] := by
  constructor
  · rintro ⟨n, rfl⟩
    have := skipSpaces_replicate_append n []
    rwa [List.append_nil] at this
  · intro none
    obtain ⟨n, hn⟩ := exists_eq_replicate_append_skipSpaces s
    exact ⟨n, by rw [none, List.append_nil] at hn; exact hn⟩

/-! ## Reading steps -/

theorem accept?_eq_some_iff {c : Char} {s rest : List Char} :
    accept? c s = some rest ↔ skipSpaces s = c :: rest := by
  unfold accept?
  cases skipSpaces s with
  | nil => simp
  | cons first behind =>
    by_cases same : first = c <;> simp [same]

theorem accept?_eq_none_iff {c : Char} {s : List Char} :
    accept? c s = none ↔ ∀ rest, skipSpaces s ≠ c :: rest := by
  rw [Option.eq_none_iff_forall_ne_some]
  exact forall_congr' fun rest => not_congr accept?_eq_some_iff

theorem suffix_of_accept? {c : Char} {s rest : List Char} (h : accept? c s = some rest) :
    rest <:+ s :=
  suffix_of_skipSpaces_eq (accept?_eq_some_iff.1 h)

theorem closing_of_skipSpaces_eq {s rest : List Char} (h : skipSpaces s = ')' :: rest) :
    closing s = rest := by
  unfold closing
  rw [accept?_eq_some_iff.2 h]

theorem closing_of_not_next {s : List Char} (h : ∀ rest, skipSpaces s ≠ ')' :: rest) :
    closing s = skipSpaces s := by
  unfold closing
  rw [accept?_eq_none_iff.2 h]

/-! ## Longest runs -/

section Runs

variable {p : Char → Bool}

theorem stops_nil : Stops p [] := by
  intro c hc
  cases hc

theorem stops_cons_iff {c : Char} {s : List Char} : Stops p (c :: s) ↔ p c = false := by
  simp [Stops]

theorem Stops.append {s k : List Char} (h : Stops p s) (h' : Stops p k) : Stops p (s ++ k) := by
  cases s with
  | nil => exact h'
  | cons c s => exact stops_cons_iff.2 (stops_cons_iff.1 h)

theorem Stops.of_append {s k : List Char} (h : Stops p (s ++ k)) : Stops p s := by
  cases s with
  | nil => exact stops_nil
  | cons c s => exact stops_cons_iff.2 (stops_cons_iff.1 h)

theorem stops_dropWhile (s : List Char) : Stops p (s.dropWhile p) := by
  intro c hc
  have first := List.head?_dropWhile_not p s
  rw [hc] at first
  exact first

theorem not_mem_of_all {s : List Char} {c : Char} (all : s.all p = true) (other : p c = false) :
    c ∉ s := by
  intro member
  have known := List.all_eq_true.1 all c member
  rw [other] at known
  contradiction

/-- A text without a character is a run of the others. -/
theorem all_ne_of_not_mem {c : Char} {s : List Char} (absent : c ∉ s) : s.all (· != c) = true := by
  refine List.all_eq_true.2 fun d member => ?_
  rw [bne_iff_ne]
  exact ne_of_mem_of_not_mem member absent

theorem takeWhile_of_stops {s : List Char} (stops : Stops p s) : s.takeWhile p = [] := by
  cases s with
  | nil => rfl
  | cons c s => simp [stops_cons_iff.1 stops]

theorem dropWhile_of_stops {s : List Char} (stops : Stops p s) : s.dropWhile p = s := by
  cases s with
  | nil => rfl
  | cons c s => simp [stops_cons_iff.1 stops]

theorem takeWhile_append_of_stops {run rest : List Char} (all : run.all p = true)
    (stops : Stops p rest) : (run ++ rest).takeWhile p = run := by
  rw [List.takeWhile_append_of_pos (List.all_eq_true.1 all), takeWhile_of_stops stops,
    List.append_nil]

theorem dropWhile_append_of_stops {run rest : List Char} (all : run.all p = true)
    (stops : Stops p rest) : (run ++ rest).dropWhile p = rest := by
  rw [List.dropWhile_append_of_pos (List.all_eq_true.1 all), dropWhile_of_stops stops]

end Runs

end Reckoner
