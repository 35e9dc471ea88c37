import Filewise.Text.CharClass
import Mathlib.Data.List.Basic
import Mathlib.Tactic.Common

/-!
# Character classes compared

The characters that continue an identifier and the word characters of regular expressions are not
the same. Identifiers leave out marks, joiners and most connectors, and words leave out numbers that
are neither digits nor letters.

## Main definitions

* `CharRanges.ascendsFrom`: ranges in strictly ascending order.
* `isNamePart`: the characters of identifiers or words.
* `isWordExtender`: marks, connectors and joiners.

## Main results

* `CharRanges.containsCode_iff`: what lies in ascending ranges.
* `isNamePart_of_isWordChar_eq_false`: what belongs to identifiers only.
* `isNamePart_of_isIdentifierChar_eq_false`: what belongs to words only.
-/

namespace Filewise.Text

/-! ### Ascending ranges -/

namespace CharRanges

variable {ranges more : CharRanges} {least code : Nat} {c : Char}

/-- The ranges ascend strictly from a least code point on. -/
def ascendsFrom : Nat → CharRanges → Bool
  | _, [] => true
  | least, (first, last) :: rest =>
    decide (least ≤ first) && decide (first ≤ last) && ascendsFrom (last + 1) rest

theorem ascendsFrom_cons {first last : Nat} :
    ascendsFrom least ((first, last) :: ranges) = true ↔
      least ≤ first ∧ first ≤ last ∧ ascendsFrom (last + 1) ranges = true := by
  simp [ascendsFrom, and_assoc]

/-- No code point of ascending ranges comes before the least one. -/
theorem least_le_of_mem (h : ranges.ascendsFrom least = true) {range : Nat × Nat}
    (hrange : range ∈ ranges) : least ≤ range.1 := by
  induction ranges generalizing least with
  | nil => simp at hrange
  | cons range' rest ih =>
    obtain ⟨first, last⟩ := range'
    obtain ⟨hleast, hlast, hrest⟩ := ascendsFrom_cons.mp h
    rcases List.mem_cons.mp hrange with rfl | hrange
    · exact hleast
    · have := ih hrest hrange
      omega

/-- A code point is in ascending ranges if it lies in one of them. -/
theorem containsCode_iff (h : ranges.ascendsFrom least = true) :
    ranges.containsCode code = true ↔ ∃ range ∈ ranges, range.1 ≤ code ∧ code ≤ range.2 := by
  refine ⟨exists_of_containsCode, ?_⟩
  rintro ⟨range, hrange, hfirst, hlast⟩
  induction ranges generalizing least with
  | nil => simp at hrange
  | cons range' rest ih =>
    obtain ⟨first, last⟩ := range'
    obtain ⟨-, hle, hrest⟩ := ascendsFrom_cons.mp h
    rcases List.mem_cons.mp hrange with rfl | hrange
    · simp [containsCode, hfirst, hlast]
    · -- the ranges behind the first one begin behind it
      have hbehind := least_le_of_mem hrest hrange
      rw [containsCode, if_neg (by omega), if_neg (by omega)]
      exact ih hrest hrange

/-- What lies in ranges lies in ascending ranges that cover each of them. -/
theorem contains_of_covers (hmore : more.ascendsFrom least = true)
    (hcovers : ∀ range ∈ ranges, ∃ range' ∈ more, range'.1 ≤ range.1 ∧ range.2 ≤ range'.2)
    (h : ranges.contains c = true) : more.contains c = true := by
  obtain ⟨range, hrange, hfirst, hlast⟩ := exists_of_containsCode h
  obtain ⟨range', hrange', hfirst', hlast'⟩ := hcovers range hrange
  exact (containsCode_iff hmore).mpr ⟨range', hrange', by omega, by omega⟩

end CharRanges

/-! ### Identifiers and words -/

variable {c : Char}

/-- Characters of identifiers or words, and the dollar sign. -/
def isNamePart (c : Char) : Bool := isWordChar c || c == '$' || isIdentifierChar c

/-- Marks, connectors and joiners, which continue a word. -/
def isWordExtender (c : Char) : Bool :=
  Unicode.mark.contains c || Unicode.connectorPunctuation.contains c ||
    Unicode.joinControl.contains c

/-- Numbers that are neither digits nor letters, such as superscripts and fractions. -/
def isOtherNumber (c : Char) : Bool := Unicode.otherNumber.contains c

/-- Numbers that are letters are alphabetic. -/
theorem alphabetic_of_letterNumber (h : Unicode.letterNumber.contains c = true) :
    isAlphabetic c = true :=
  have hascends : Unicode.alphabetic.ascendsFrom 0 = true := by decide +kernel
  CharRanges.contains_of_covers hascends (by decide +kernel) h

/-- Only numbers that are neither digits nor letters belong to identifiers and not to words. -/
theorem isNamePart_of_isWordChar_eq_false (hword : isWordChar c = false)
    (hdollar : (c == '$') = false) : isNamePart c = isOtherNumber c := by
  simp only [isWordChar, Bool.or_eq_false_iff] at hword
  obtain ⟨⟨⟨⟨halphabetic, hmark⟩, hdigit⟩, hconnector⟩, hjoiner⟩ := hword
  have hletter : Unicode.letterNumber.contains c = false := by
    rw [← Bool.not_eq_true]
    intro h
    rw [alphabetic_of_letterNumber h] at halphabetic
    simp at halphabetic
  have hunderscore : (c == '_') = false := by
    rw [beq_eq_false_iff_ne]
    rintro rfl
    revert hconnector
    decide
  simp [isNamePart, isWordChar, isIdentifierChar, isAlphanumeric, isNumeric, isOtherNumber,
    halphabetic, hmark, hdigit, hconnector, hjoiner, hletter, hunderscore, hdollar]

/-- Only marks, connectors and joiners belong to words and not to identifiers. -/
theorem isNamePart_of_isIdentifierChar_eq_false (h : isIdentifierChar c = false) :
    isNamePart c = isWordExtender c := by
  have hidentifier := h
  simp only [isIdentifierChar, isAlphanumeric, isNumeric, Bool.or_eq_false_iff] at h
  obtain ⟨⟨⟨halphabetic, ⟨hdigit, -⟩, -⟩, -⟩, hdollar⟩ := h
  simp [isNamePart, isWordChar, isWordExtender, hidentifier, halphabetic, hdigit, hdollar]

end Filewise.Text
