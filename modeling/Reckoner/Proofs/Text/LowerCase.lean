import Mathlib.Data.List.Forall2
import Reckoner.Text.LowerCase

/-!
# What becomes a given small letter

To compare a text in lower case with a word is to say of each of its characters which letter it
becomes. For a letter without peculiarities (`Letter.Plain`) only the letter itself and its capital
become it; that no other capital does is read off the ranges, each of which has at most one code
point for a small letter (`CaseRange.capitalOf?`).

The one rule of lower case that looks at what stands around a character is about the sigma.
`Lowered` leaves open which sigmas end a word: no plain letter is a sigma, so it makes no difference
to a word of plain letters (`Lowered.eq_iff`).
-/

namespace Reckoner

/-! ## Ranges of capitals -/

/-- The code point in a range of capitals that has a given small letter. -/
def CaseRange.capitalOf? (range : CaseRange) (code : Nat) : Option Nat :=
  let capital := range.first + (code - range.small)
  if range.small ≤ code && range.holds capital then some capital else none

theorem CaseRange.capitalOf?_smallOf {range : CaseRange} {code : Nat}
    (h : range.holds code = true) :
    range.capitalOf? (range.smallOf code) = some code := by
  have first : range.first ≤ code := by
    simp only [holds, Bool.and_eq_true, decide_eq_true_eq] at h
    exact h.1.1
  have back : range.first + (range.smallOf code - range.small) = code := by
    rw [smallOf]
    omega
  have behind : range.small ≤ range.smallOf code := Nat.le_add_right _ _
  simp [capitalOf?, back, h, behind]

/-- A code point that is none makes the null character. -/
theorem toNat_ofNat_of_ne_zero {n : Nat} (h : (Char.ofNat n).toNat ≠ 0) :
    (Char.ofNat n).toNat = n := by
  by_cases valid : n.isValidChar
  · rw [Char.ofNat, dif_pos valid]
    rfl
  · rw [Char.ofNat, dif_neg valid] at h
    exact absurd rfl h

/-- A character is its own small letter, or a capital of one of the ranges. -/
theorem smallLetter_cases (c : Char) :
    smallLetter c = c ∨ ∃ range ∈ capitals, range.holds c.toNat = true ∧
      smallLetter c = Char.ofNat (range.smallOf c.toNat) := by
  rw [smallLetter]
  cases found : capitals.find? (·.holds c.toNat) with
  | none => exact .inl rfl
  | some range =>
    have holds := List.find?_some (p := fun range : CaseRange => range.holds c.toNat) found
    exact .inr ⟨range, List.mem_of_find?_eq_some found, holds, rfl⟩

/-! ## Letters -/

/-- A small letter with its capital. -/
structure Letter where
  small : Char
  capital : Char
deriving DecidableEq, Repr

namespace Letter

/-- Whether a character is the letter, small or capital. -/
def Writes (letter : Letter) (c : Char) : Prop := c = letter.small ∨ c = letter.capital

instance (letter : Letter) (c : Char) : Decidable (letter.Writes c) :=
  inferInstanceAs (Decidable (_ ∨ _))

/-- A letter that is the lower case of itself and its capital, and has no place in the lower case of
any other capital. Sigmas are not among these, nor is the dot that `İ` leaves behind. -/
def Plain (letter : Letter) : Prop :=
  lowerCase letter.small = [letter.small] ∧ lowerCase letter.capital = [letter.small] ∧
    (∀ range ∈ capitals, ∀ code ∈ range.capitalOf? letter.small.toNat,
      code = letter.capital.toNat) ∧
    letter.small ∉ ['\x00', 'σ', 'ς', '\u0307']

instance (letter : Letter) : Decidable letter.Plain := inferInstanceAs (Decidable (_ ∧ _ ∧ _ ∧ _))

namespace Plain

variable {letter : Letter} {c : Char}

theorem lowerCase_of_writes (h : letter.Plain) (writes : letter.Writes c) :
    lowerCase c = [letter.small] := by
  rcases writes with rfl | rfl
  · exact h.1
  · exact h.2.1

theorem writes_of_smallLetter (h : letter.Plain) (same : smallLetter c = letter.small) :
    letter.Writes c := by
  obtain ⟨-, -, only, ordinary⟩ := h
  rcases smallLetter_cases c with own | ⟨range, listed, holds, becomes⟩
  · exact .inl (own.symm.trans same)
  · have nonzero : letter.small.toNat ≠ '\x00'.toNat := fun zero =>
      ordinary (Char.toNat_inj.1 zero ▸ List.mem_cons_self)
    have code : letter.small.toNat = range.smallOf c.toNat := by
      rw [← same, becomes] at nonzero ⊢
      exact toNat_ofNat_of_ne_zero nonzero
    have capital : range.capitalOf? letter.small.toNat = some c.toNat := by
      rw [code, CaseRange.capitalOf?_smallOf holds]
    exact .inr (Char.toNat_inj.1 (only range listed _ capital))

end Plain

variable {letters : List Letter}

theorem not_mem_map_small {c : Char} (plain : ∀ letter ∈ letters, letter.Plain)
    (h : c ∈ ['\x00', 'σ', 'ς', '\u0307']) : c ∉ letters.map small := by
  intro member
  obtain ⟨letter, listed, rfl⟩ := List.mem_map.1 member
  exact (plain letter listed).2.2.2 h

/-- The first character of a text that becomes a word of plain letters is the first letter. -/
theorem lowerCase_append_eq_iff {c : Char} {letter : Letter} {t : List Char}
    (plain : ∀ letter' ∈ letter :: letters, letter'.Plain) :
    lowerCase c ++ t = (letter :: letters).map small ↔
      letter.Writes c ∧ t = letters.map small := by
  have first := plain letter List.mem_cons_self
  constructor
  · intro same
    by_cases dotted : c = 'İ'
    · -- the dot would be a letter of the word
      rw [lowerCase, if_pos dotted] at same
      have dot : '\u0307' ∈ (letter :: letters).map small := by
        rw [← same]
        simp
      exact absurd dot (not_mem_map_small plain (by simp))
    · rw [lowerCase, if_neg dotted, List.singleton_append, List.map_cons, List.cons.injEq] at same
      exact ⟨first.writes_of_smallLetter same.1, same.2⟩
  · rintro ⟨writes, rfl⟩
    rw [first.lowerCase_of_writes writes, List.singleton_append, List.map_cons]

end Letter

/-! ## Texts in lower case -/

/-- A text in lower case. A capital sigma may have become the small letter that ends a word. -/
inductive Lowered : List Char → List Char → Prop where
  | nil : Lowered [] []
  | cons (c : Char) {s t : List Char} : Lowered s t → Lowered (c :: s) (lowerCase c ++ t)
  | final {s t : List Char} : Lowered s t → Lowered ('Σ' :: s) ('ς' :: t)

theorem lowered_lowerCaseBehind (before s : List Char) : Lowered s (lowerCaseBehind before s) := by
  induction s generalizing before with
  | nil => exact .nil
  | cons c s ih =>
    rw [lowerCaseBehind]
    by_cases sigma : c = 'Σ'
    · rw [if_pos sigma, sigma, lowerCaseSigma]
      split
      · exact (ih _).final
      · exact (ih _).cons 'Σ'
    · rw [if_neg sigma]
      exact (ih _).cons c

theorem lowered_lowerCaseText (s : List Char) : Lowered s (lowerCaseText s) :=
  lowered_lowerCaseBehind [] s

/-- A sigma ends a word in front of a full stop, but not in front of an apostrophe and a letter, and
alone it ends none. -/
example : lowerCaseText "ΣΟΣ. ΟΣ'Α Σ".toList = "σος. οσ'α σ".toList := by decide +kernel

/-- Whatever stands around it, a character other than a sigma becomes its own lower case. -/
theorem Lowered.mem {c d : Char} {s t : List Char} (h : Lowered s t) (member : c ∈ s)
    (plain : c ≠ 'Σ') (becomes : d ∈ lowerCase c) : d ∈ t := by
  induction h with
  | nil => contradiction
  | cons first _ ih =>
    rcases List.mem_cons.1 member with rfl | behind
    · exact List.mem_append_left _ becomes
    · exact List.mem_append_right _ (ih behind)
  | final _ ih =>
    have behind := (List.mem_cons.1 member).resolve_left plain
    exact List.mem_cons_of_mem _ (ih behind)

/-- A text becomes a word of plain letters exactly if it is the word in small letters and capitals.
The induction is on the text, as it becomes lower case. -/
theorem Lowered.eq_iff {letters : List Letter} {s t : List Char} (h : Lowered s t)
    (plain : ∀ letter ∈ letters, letter.Plain) :
    t = letters.map Letter.small ↔ List.Forall₂ (fun c letter => letter.Writes c) s letters := by
  induction h generalizing letters with
  | nil => cases letters <;> simp
  | cons c _ ih =>
    cases letters with
    | nil =>
      have nonempty : lowerCase c ≠ [] := by
        rw [lowerCase]
        split <;> exact List.cons_ne_nil _ _
      simp [nonempty]
    | cons letter letters =>
      rw [Letter.lowerCase_append_eq_iff plain, List.forall₂_cons,
        ih fun letter' member => plain letter' (List.mem_cons_of_mem _ member)]
  | @final s t _ ih =>
    have ending : 'ς' ∉ letters.map Letter.small := Letter.not_mem_map_small plain (by simp)
    constructor
    · intro same
      exact absurd (same ▸ List.mem_cons_self) ending
    · intro written
      cases written with
      | @cons _ letter _ letters writes _ =>
        -- the capital sigma is the capital of no plain letter
        have small := (plain letter List.mem_cons_self).lowerCase_of_writes writes
        have sigma : letter.small = 'σ' := by
          rw [show lowerCase 'Σ' = ['σ'] by decide +kernel, List.singleton_inj] at small
          exact small.symm
        have absent : 'σ' ∉ (letter :: letters).map Letter.small :=
          Letter.not_mem_map_small plain (by simp)
        exact absurd (List.mem_map.2 ⟨letter, List.mem_cons_self, sigma⟩) absent

end Reckoner
