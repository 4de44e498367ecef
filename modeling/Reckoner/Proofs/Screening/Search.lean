import Mathlib.Data.List.Basic

/-!
# Searching for expressions

A `Search` is an expression to look for in a text. At a place of the text it can match in several
ways, and `Search.ends` lists the places where these end, the preferred one first: as many
characters as possible are taken where any number is allowed, and of two expressions the first is
tried first.

`Search.Occurs` asks for any match at all. `Search.Scan` takes the matches of a text from left to
right: each is the preferred one at the first place behind the one before where any begins. Where
what is preferred is always a single character of a class, the matches are the characters of that
class (`TakesOne.scan_iff`).
-/

namespace Reckoner

/-- A place in a text, given by what stands on both sides of it. -/
structure Cut where
  front : List Char
  back : List Char
deriving DecidableEq, Repr

/-- An expression to search a text for. -/
inductive Search where
  /-- Nothing, at the beginning of the text. -/
  | start
  /-- Nothing, at the end of the text. -/
  | finish
  /-- A character of the class. -/
  | one (accepts : Char → Bool)
  /-- Any number of characters of the class, as many as possible. -/
  | many (accepts : Char → Bool)
  /-- The expression if possible, or else nothing. -/
  | maybe (e : Search)
  /-- The first expression and then the second. -/
  | next (e f : Search)
  /-- The first expression if possible, or else the second. -/
  | either (e f : Search)

namespace Search

/-- The ends of runs of the class, the longest run first. -/
def runEnds (accepts : Char → Bool) : List Char → List Char → List Cut
  | u, [] => [⟨u, []⟩]
  | u, c :: s =>
    if accepts c then runEnds accepts (u ++ [c]) s ++ [⟨u, c :: s⟩] else [⟨u, c :: s⟩]

/-- The ends of the matches that begin at a cut, in order of preference. -/
def ends : Search → Cut → List Cut
  | .start, cut => if cut.front = [] then [cut] else []
  | .finish, cut => if cut.back = [] then [cut] else []
  | .one accepts, cut =>
    match cut.back with
    | [] => []
    | c :: s => if accepts c then [⟨cut.front ++ [c], s⟩] else []
  | .many accepts, cut => runEnds accepts cut.front cut.back
  | .maybe e, cut => e.ends cut ++ [cut]
  | .next e f, cut => (e.ends cut).flatMap f.ends
  | .either e f, cut => e.ends cut ++ f.ends cut

/-- At least one character of the class. -/
def oneOrMore (accepts : Char → Bool) : Search := .next (.one accepts) (.many accepts)

/-- The expression matches somewhere in the text. -/
def Occurs (e : Search) (s : List Char) : Prop := ∃ u v, s = u ++ v ∧ e.ends ⟨u, v⟩ ≠ []

/-- The matches that are found behind a cut, from left to right. Where none begins a character is
skipped, and where one begins the preferred one is taken and the search goes on at its end. This is
for expressions that match no empty text. -/
inductive Scan (e : Search) : Cut → List (List Char) → Prop
  | done {u} : e.ends ⟨u, []⟩ = [] → Scan e ⟨u, []⟩ []
  | skip {u c s found} :
      e.ends ⟨u, c :: s⟩ = [] → Scan e ⟨u ++ [c], s⟩ found → Scan e ⟨u, c :: s⟩ found
  | take {u m s others found} :
      m ≠ [] → e.ends ⟨u, m ++ s⟩ = ⟨u ++ m, s⟩ :: others → Scan e ⟨u ++ m, s⟩ found →
      Scan e ⟨u, m ++ s⟩ (m :: found)

/-! ## Where matches end -/

section Ends

variable {accepts : Char → Bool} {e f : Search} {u v s r : List Char} {cut stop : Cut}

theorem mem_ends_start : stop ∈ start.ends cut ↔ cut.front = [] ∧ stop = cut := by
  simp [ends]

theorem mem_ends_finish : stop ∈ finish.ends cut ↔ cut.back = [] ∧ stop = cut := by
  simp [ends]

theorem mem_ends_one :
    (⟨v, r⟩ : Cut) ∈ (one accepts).ends ⟨u, s⟩ ↔
      ∃ c, accepts c = true ∧ s = c :: r ∧ v = u ++ [c] := by
  cases s with
  | nil => simp [ends]
  | cons c s =>
    constructor
    · intro member
      simp only [ends] at member
      split at member
      · rename_i accepted
        rw [List.mem_singleton, Cut.mk.injEq] at member
        obtain ⟨rfl, rfl⟩ := member
        exact ⟨c, accepted, rfl, rfl⟩
      · exact absurd member List.not_mem_nil
    · rintro ⟨d, accepted, shape, rfl⟩
      obtain ⟨rfl, rfl⟩ := List.cons.inj shape
      simp only [ends, accepted, if_true, List.mem_singleton]

theorem mem_ends_many : (⟨v, r⟩ : Cut) ∈ (many accepts).ends ⟨u, s⟩ ↔
    ∃ w, w.all accepts = true ∧ s = w ++ r ∧ v = u ++ w := by
  show (⟨v, r⟩ : Cut) ∈ runEnds accepts u s ↔ _
  induction s generalizing u with
  | nil =>
    rw [runEnds, List.mem_singleton, Cut.mk.injEq]
    constructor
    · rintro ⟨rfl, rfl⟩
      exact ⟨[], rfl, rfl, (List.append_nil v).symm⟩
    · rintro ⟨w, -, nothing, rfl⟩
      obtain ⟨rfl, rfl⟩ := List.append_eq_nil_iff.1 nothing.symm
      exact ⟨List.append_nil u, rfl⟩
  | cons c s ih =>
    have here : (⟨v, r⟩ : Cut) ∈ [(⟨u, c :: s⟩ : Cut)] ↔ v = u ∧ r = c :: s := by simp
    rw [runEnds]
    constructor
    · intro member
      split at member
      · rename_i accepted
        rcases List.mem_append.1 member with further | stays
        · obtain ⟨w, all, rfl, rfl⟩ := ih.1 further
          exact ⟨c :: w, by rw [List.all_cons, accepted, all, Bool.and_self], rfl, by simp⟩
        · obtain ⟨rfl, rfl⟩ := here.1 stays
          exact ⟨[], rfl, rfl, (List.append_nil v).symm⟩
      · obtain ⟨rfl, rfl⟩ := here.1 member
        exact ⟨[], rfl, rfl, (List.append_nil v).symm⟩
    · rintro ⟨w, all, shape, rfl⟩
      cases w with
      | nil =>
        have stays := here.2 ⟨List.append_nil u, shape.symm⟩
        split
        · exact List.mem_append_right _ stays
        · exact stays
      | cons d w =>
        obtain ⟨rfl, rfl⟩ := List.cons.inj shape
        rw [List.all_cons, Bool.and_eq_true] at all
        rw [if_pos all.1]
        exact List.mem_append_left _ (ih.2 ⟨w, all.2, rfl, by simp⟩)

theorem mem_ends_maybe : stop ∈ (maybe e).ends cut ↔ stop ∈ e.ends cut ∨ stop = cut := by
  simp [ends]

theorem mem_ends_next :
    stop ∈ (next e f).ends cut ↔ ∃ v s, ⟨v, s⟩ ∈ e.ends cut ∧ stop ∈ f.ends ⟨v, s⟩ := by
  simp only [ends, List.mem_flatMap]
  constructor
  · rintro ⟨⟨v, s⟩, first, second⟩
    exact ⟨v, s, first, second⟩
  · rintro ⟨v, s, first, second⟩
    exact ⟨⟨v, s⟩, first, second⟩

end Ends

/-! ## Matches of a single character -/

/-- Where the expression matches, what is preferred is a single character of the class. -/
structure TakesOne (e : Search) (accepts : Char → Bool) : Prop where
  nothing : ∀ u, e.ends ⟨u, []⟩ = []
  misses : ∀ {c} u s, accepts c = false → e.ends ⟨u, c :: s⟩ = []
  prefers : ∀ {c} u s, accepts c = true → ∃ others, e.ends ⟨u, c :: s⟩ = ⟨u ++ [c], s⟩ :: others

namespace TakesOne

variable {e : Search} {accepts : Char → Bool}

theorem found_eq_of_scan (h : TakesOne e accepts) {cut : Cut} {found : List (List Char)}
    (scan : Scan e cut found) : found = (cut.back.filter accepts).map ([·]) := by
  induction scan with
  | done _ => rfl
  | @skip u c s found none _ ih =>
    have other : accepts c = false := by
      rw [Bool.eq_false_iff]
      intro accepted
      obtain ⟨others, some⟩ := h.prefers u s accepted
      rw [none] at some
      contradiction
    rw [ih, List.filter_cons, other, if_neg Bool.false_ne_true]
  | @take u m s others found nonempty some _ ih =>
    obtain ⟨c, m, rfl⟩ := List.exists_cons_of_ne_nil nonempty
    cases accepted : accepts c with
    | false =>
      rw [List.cons_append, h.misses u (m ++ s) accepted] at some
      contradiction
    | true =>
      -- the preferred match ends behind one character, so this is all there is of `m`
      obtain ⟨others', single⟩ := h.prefers u (m ++ s) accepted
      rw [List.cons_append, single, List.cons.injEq, Cut.mk.injEq,
        List.append_cancel_left_eq] at some
      obtain ⟨⟨same, -⟩, -⟩ := some
      obtain rfl : [] = m := (List.cons.inj same).2
      rw [ih, List.singleton_append, List.filter_cons, accepted, if_pos rfl, List.map_cons]

theorem scan_filter (h : TakesOne e accepts) (u s : List Char) :
    Scan e ⟨u, s⟩ ((s.filter accepts).map ([·])) := by
  induction s generalizing u with
  | nil => exact .done (h.nothing u)
  | cons c s ih =>
    rw [List.filter_cons]
    cases accepted : accepts c with
    | false => exact .skip (h.misses u s accepted) (ih _)
    | true =>
      obtain ⟨others, single⟩ := h.prefers u s accepted
      exact .take (m := [c]) (List.cons_ne_nil c []) single (ih _)

/-- The matches are the characters of the class, one by one. -/
theorem scan_iff (h : TakesOne e accepts) {u s : List Char} {found : List (List Char)} :
    Scan e ⟨u, s⟩ found ↔ found = (s.filter accepts).map ([·]) := by
  constructor
  · exact h.found_eq_of_scan
  · rintro rfl
    exact h.scan_filter u s

end TakesOne

end Search

end Reckoner
