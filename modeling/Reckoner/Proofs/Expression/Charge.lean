import Reckoner.Proofs.Expression.Depth
import Reckoner.Proofs.Expression.Moves

/-!
# What nesting is paid with

Every factor inside another is paid for by the text: a sign, a parenthesis or a lowercase letter
opens it. `charge` counts what a text has to pay with, and `Reader.not_tooDeep_read` says that the
reader is never refused for its depth where there is more room than that.

Slashes and carets are counted as well, although they open nothing. They stand for the calls that
shorthand is written out as, and to make that exchange even, a function with its parenthesis
directly behind its name counts only once, whatever letters it has.
-/

namespace Reckoner

/-- The characters that a factor is opened with, and those that shorthand is typed with. -/
def isCharged (c : Char) : Bool :=
  c == '+' || c == '-' || c == '/' || c == '^' || c == '(' || c.isLower

/-- What stands in the parenthesis of a call, if the text begins with a call in parentheses. -/
def insideCall? (s : List Char) : Option (List Char) :=
  Builtin.all.findSome? fun function => (function.name ++ ['(']).isPrefixOf? s

theorem insideCall?_eq_some_iff {s inside : List Char} :
    insideCall? s = some inside ↔ ∃ function : Builtin, s = function.name ++ '(' :: inside := by
  constructor
  · intro found
    obtain ⟨function, -, begins⟩ := List.exists_of_findSome?_eq_some found
    refine ⟨function, ?_⟩
    rw [← List.isPrefixOf?_eq_some_iff_append_eq.1 begins, List.append_assoc, List.singleton_append]
  · rintro ⟨function, rfl⟩
    cases function <;> rfl

theorem length_lt_of_insideCall? {s inside : List Char} (h : insideCall? s = some inside) :
    inside.length < s.length := by
  obtain ⟨function, rfl⟩ := insideCall?_eq_some_iff.1 h
  simp only [List.length_append, List.length_cons]
  omega

/-- The number of characters that can open a factor, where a call in parentheses counts once. -/
def charge (s : List Char) : Nat :=
  match s with
  | [] => 0
  | c :: rest =>
    match called : insideCall? (c :: rest) with
    | some inside => charge inside + 1
    | none => charge rest + if isCharged c then 1 else 0
termination_by s.length
decreasing_by
  · exact length_lt_of_insideCall? called
  · exact Nat.lt_succ_self _

@[simp] theorem charge_nil : charge [] = 0 := by rw [charge]

theorem charge_of_insideCall? {s inside : List Char} (h : insideCall? s = some inside) :
    charge s = charge inside + 1 := by
  cases s with
  | nil => exact absurd (length_lt_of_insideCall? h) (Nat.not_lt_zero _)
  | cons c rest =>
    rw [charge]
    split
    · rename_i inside' called
      rw [h, Option.some.injEq] at called
      rw [called]
    · rename_i called
      rw [h] at called
      contradiction

theorem charge_call (function : Builtin) (s : List Char) :
    charge (function.name ++ '(' :: s) = charge s + 1 :=
  charge_of_insideCall? (insideCall?_eq_some_iff.2 ⟨function, rfl⟩)

theorem charge_cons {c : Char} {s : List Char} (h : insideCall? (c :: s) = none) :
    charge (c :: s) = charge s + if isCharged c then 1 else 0 := by
  rw [charge]
  split
  · rename_i inside called
    rw [h] at called
    contradiction
  · rfl

/-- Names begin with a capital M, hold no other, and have small letters. -/
theorem Builtin.exists_name_eq (function : Builtin) :
    ∃ letters, function.name = 'M' :: letters ∧ 'M' ∉ letters ∧ 0 < letters.countP isCharged := by
  cases function
  · exact ⟨"ath.pow".toList, rfl, by decide, by decide⟩
  · exact ⟨"ath.floor".toList, rfl, by decide, by decide⟩

theorem insideCall?_eq_none {c : Char} (h : c ≠ 'M') (s : List Char) :
    insideCall? (c :: s) = none := by
  rw [Option.eq_none_iff_forall_ne_some]
  intro inside called
  obtain ⟨function, shape⟩ := insideCall?_eq_some_iff.1 called
  obtain ⟨letters, name, -⟩ := function.exists_name_eq
  rw [name] at shape
  exact h (List.cons.inj shape).1

/-- Without a capital M no call begins, so every character counts by itself. -/
theorem charge_append {u : List Char} (absent : 'M' ∉ u) (s : List Char) :
    charge (u ++ s) = charge s + u.countP isCharged := by
  induction u with
  | nil => rfl
  | cons c u ih =>
    have other : c ≠ 'M' := (List.ne_of_not_mem_cons absent).symm
    rw [List.cons_append, charge_cons (insideCall?_eq_none other _),
      ih (List.not_mem_of_not_mem_cons absent), List.countP_cons, Nat.add_assoc]

theorem charge_le_append {u : List Char} (absent : 'M' ∉ u) (s : List Char) :
    charge s ≤ charge (u ++ s) := by
  rw [charge_append absent]
  exact Nat.le_add_right _ _

/-- A call does not count more than its letters would. -/
theorem charge_cons_le (c : Char) (s : List Char) :
    charge (c :: s) ≤ charge s + if isCharged c then 1 else 0 := by
  cases called : insideCall? (c :: s) with
  | none => exact Nat.le_of_eq (charge_cons called)
  | some inside =>
    obtain ⟨function, shape⟩ := insideCall?_eq_some_iff.1 called
    obtain ⟨letters, name, absent, pos⟩ := function.exists_name_eq
    obtain ⟨rfl, rfl⟩ : c = 'M' ∧ s = letters ++ '(' :: inside := by
      rw [name] at shape
      exact List.cons.inj shape
    have behind : charge inside ≤ charge ('(' :: inside) :=
      charge_le_append (u := ['(']) (by simp) inside
    rw [charge_of_insideCall? called, charge_append absent]
    omega

theorem charge_le_countP (s : List Char) : charge s ≤ s.countP isCharged := by
  induction s with
  | nil => exact Nat.le_of_eq charge_nil
  | cons c s ih =>
    have le := charge_cons_le c s
    rw [List.countP_cons]
    omega

/-! ## Spaces, symbols and openings -/

section Steps

variable {s r : List Char} {c : Char}

theorem charge_skipSpaces (s : List Char) : charge (skipSpaces s) = charge s := by
  obtain ⟨n, shape⟩ := exists_eq_replicate_append_skipSpaces s
  have absent : 'M' ∉ List.replicate n ' ' := by simp
  have free : (List.replicate n ' ').countP isCharged = 0 := by
    simp [List.countP_replicate, isCharged]
  have whole := charge_append absent (skipSpaces s)
  rw [← shape, free, Nat.add_zero] at whole
  exact whole.symm

theorem charge_le_of_accept? (found : accept? c s = some r) (other : c ≠ 'M') :
    charge r ≤ charge s := by
  rw [← charge_skipSpaces s, accept?_eq_some_iff.1 found]
  exact charge_le_append (u := [c]) (by simp [other.symm]) r

/-- The text where the argument of a call begins. -/
def argumentText (s : List Char) : List Char := (accept? '(' s).getD (skipSpaces s)

theorem charge_argumentText_le (s : List Char) : charge (argumentText s) ≤ charge s := by
  unfold argumentText
  cases found : accept? '(' s with
  | none => exact Nat.le_of_eq (charge_skipSpaces s)
  | some inside => exact charge_le_of_accept? found (by simp)

end Steps

namespace Opening

variable {s rest run : List Char}

theorem charge_lt_of_sign {mark : Sign} (opened : ofText s = .sign mark rest) :
    charge rest < charge s := by
  rw [← charge_skipSpaces s, show skipSpaces s = [mark.symbol] ++ rest from ofText_eq_iff.1 opened,
    charge_append (by cases mark <;> decide)]
  cases mark <;> exact Nat.lt_succ_self _

theorem charge_lt_of_parenthesis (opened : ofText s = .parenthesis rest) :
    charge rest < charge s := by
  rw [← charge_skipSpaces s, show skipSpaces s = ['('] ++ rest from ofText_eq_iff.1 opened,
    charge_append (by decide)]
  exact Nat.lt_succ_self _

/-- Neither name begins the other, so the parenthesis of a call stands behind its own. -/
theorem eq_cons_of_insideCall? {function : Builtin} {inside : List Char}
    (called : insideCall? (function.name ++ rest) = some inside) : rest = '(' :: inside := by
  obtain ⟨other, shape⟩ := insideCall?_eq_some_iff.1 called
  have named := Builtin.leading?_eq_some_iff.2 shape
  rw [Builtin.leading?_eq_some_iff.2 rfl] at named
  cases named
  rfl

theorem charge_lt_name_append {function : Builtin}
    (called : insideCall? (function.name ++ rest) = none) :
    charge rest < charge (function.name ++ rest) := by
  obtain ⟨letters, name, absent, pos⟩ := function.exists_name_eq
  rw [name, List.cons_append] at called ⊢
  rw [charge_cons called, charge_append absent]
  omega

/-- Where a call is in parentheses, these are what is paid for it, and otherwise its name. -/
theorem charge_lt_of_builtin {function : Builtin} (opened : ofText s = .builtin function rest) :
    charge (argumentText rest) < charge s := by
  rw [← charge_skipSpaces s, show skipSpaces s = function.name ++ rest from ofText_eq_iff.1 opened]
  cases called : insideCall? (function.name ++ rest) with
  | some inside =>
    obtain rfl := eq_cons_of_insideCall? called
    rw [charge_call]
    exact Nat.lt_succ_self _
  | none => exact Nat.lt_of_le_of_lt (charge_argumentText_le rest) (charge_lt_name_append called)

theorem charge_le_of_builtin {function : Builtin} (opened : ofText s = .builtin function rest) :
    charge rest ≤ charge s := by
  rw [← charge_skipSpaces s, show skipSpaces s = function.name ++ rest from ofText_eq_iff.1 opened]
  cases called : insideCall? (function.name ++ rest) with
  | some inside =>
    obtain rfl := eq_cons_of_insideCall? called
    rw [charge_call]
    exact charge_cons_le '(' inside
  | none => exact Nat.le_of_lt (charge_lt_name_append called)

theorem charge_le_of_number (opened : ofText s = .number run rest) : charge rest ≤ charge s := by
  obtain ⟨shape, -, all, -⟩ := ofText_eq_iff.1 opened
  rw [← charge_skipSpaces s, shape]
  refine charge_le_append (fun member => ?_) rest
  have digit := List.all_eq_true.1 all _ member
  contradiction

theorem charge_lt_of_word (opened : ofText s = .word run rest) : charge rest < charge s := by
  obtain ⟨shape, nonempty, all, -⟩ := ofText_eq_iff.1 opened
  have absent : 'M' ∉ run := by
    intro member
    have letter := List.all_eq_true.1 all _ member
    contradiction
  have pos : 0 < run.countP isCharged := by
    obtain ⟨c, letters, rfl⟩ := List.exists_cons_of_ne_nil nonempty
    have letter : c.isLower = true := List.all_eq_true.1 all c List.mem_cons_self
    exact List.countP_pos_iff.2 ⟨c, List.mem_cons_self, by simp [isCharged, letter]⟩
  rw [← charge_skipSpaces s, shape, charge_append absent]
  omega

end Opening

/-! ## Room for every factor -/

theorem Moves.charge_le {s r : List Char} (h : Moves s r) : charge r ≤ charge s := by
  cases h with
  | spaces => exact Nat.le_of_eq (charge_skipSpaces s)
  | @symbol c _ _ listed found =>
    have other : c ≠ 'M' := ne_of_mem_of_not_mem listed (by decide)
    exact charge_le_of_accept? found other
  | @opening o _ _ opened taken =>
    cases o with
    | sign mark rest => cases taken; exact Nat.le_of_lt (Opening.charge_lt_of_sign opened)
    | parenthesis rest =>
      cases taken; exact Nat.le_of_lt (Opening.charge_lt_of_parenthesis opened)
    | builtin function rest => cases taken; exact Opening.charge_le_of_builtin opened
    | number run rest => cases taken; exact Opening.charge_le_of_number opened
    | word run rest => cases taken; exact Nat.le_of_lt (Opening.charge_lt_of_word opened)
    | other c rest => contradiction
    | nothing => contradiction

theorem Reaches.charge_le {s r : List Char} (h : Reaches s r) : charge r ≤ charge s := by
  induction h with
  | refl => exact Nat.le_refl _
  | tail _ moves ih => exact Nat.le_trans moves.charge_le ih

namespace Reader

variable {limit room : Nat} {part : Part} {s : List Char} {task next : Task}

/-- The text that a part has to pay with. A call has been paid for with its parenthesis. -/
def purse : Part → List Char → List Char
  | .call _, s => argumentText s
  | _, s => s

theorem purse_operand (level : Level) (s : List Char) : purse level.operand s = s := by
  cases level <;> rfl

/-- Each factor inside another has taken from the charge what it takes from the room. -/
theorem Enters.charge_lt (h : Enters limit task next)
    (lt : charge (purse task.part task.text) < task.room) :
    charge (purse next.part next.text) < next.room := by
  cases h with
  | @first room level s => exact (purse_operand level s).symm ▸ lt
  | tail first => exact Nat.lt_of_le_of_lt (reaches_of_read first).charge_le lt
  | @right _ _ _ rest op ahead =>
    rw [purse_operand]
    exact Nat.lt_of_le_of_lt (reaches_operator ahead).charge_le lt
  | further ahead right =>
    have behind : Reaches _ _ := (reaches_operator ahead).trans (reaches_of_read right)
    exact Nat.lt_of_le_of_lt behind.charge_le lt
  | signed opened =>
    exact Nat.lt_of_lt_of_le (Opening.charge_lt_of_sign opened) (Nat.le_of_lt_succ lt)
  | inside opened =>
    exact Nat.lt_of_lt_of_le (Opening.charge_lt_of_parenthesis opened) (Nat.le_of_lt_succ lt)
  | call opened =>
    exact Nat.lt_of_lt_of_le (Opening.charge_lt_of_builtin opened) (Nat.le_of_lt_succ lt)
  | @unknown _ _ _ rest opened =>
    have word := Nat.lt_of_lt_of_le (Opening.charge_lt_of_word opened) (Nat.le_of_lt_succ lt)
    exact Nat.lt_of_le_of_lt (charge_argumentText_le rest) word
  | group opened => rwa [purse, argumentText, opened] at lt
  | bare opened => rwa [purse, argumentText, opened] at lt
  | second opened first separated =>
    rw [purse, argumentText, opened] at lt
    have behind : Reaches _ _ := (reaches_of_read first).tail (.symbol (by decide) separated)
    exact Nat.lt_of_le_of_lt behind.charge_le lt
  | exponent opened first _ =>
    rw [purse, argumentText, opened] at lt
    have behind : Reaches _ _ := (reaches_of_read first).trans (reaches_closing _)
    exact Nat.lt_of_le_of_lt behind.charge_le lt
  | bareExponent opened first =>
    rw [purse, argumentText, opened] at lt
    exact Nat.lt_of_le_of_lt (reaches_of_read first).charge_le lt

/-- With more room than the charge of the text, it is never refused for its depth: there is always
room left where something is entered. -/
theorem not_tooDeep_read (lt : charge (purse part s) < room) :
    ¬ TooDeep (read limit room part s) := by
  rintro ⟨k, rest, refused⟩
  obtain ⟨origin, left, raises⟩ := exists_raises_of_read
    (P := fun task => charge (purse task.part task.text) < task.room)
    (fun _ _ lt enters => enters.charge_lt lt) lt refused
  cases raises with
  | full => exact absurd left (Nat.not_lt_zero _)

end Reader

end Reckoner
