/-!
# Sets of characters given by ranges

A set of characters is written as the ascending list of the code point ranges it
consists of, ends included. Membership stops at the first range that starts
beyond the code point, so a table for all of Unicode answers quickly for the
characters that texts mostly hold.
-/

namespace Filewise.Text

/-- Ascending, disjoint ranges of code points, both ends included. -/
abbrev CharRanges := List (Nat × Nat)

namespace CharRanges

/-- Whether a code point lies in one of the ranges. -/
def containsCode : CharRanges → Nat → Bool
  | [], _ => false
  | (first, last) :: rest, code =>
    if code < first then false
    else if code ≤ last then true
    else containsCode rest code

/-- Whether a character lies in one of the ranges. -/
def contains (ranges : CharRanges) (c : Char) : Bool :=
  ranges.containsCode c.toNat

@[simp] theorem contains_nil (c : Char) : contains [] c = false := rfl

/-- A code point in the set lies in one of its ranges. -/
theorem exists_of_containsCode {ranges : CharRanges} {code : Nat}
    (h : ranges.containsCode code = true) :
    ∃ range ∈ ranges, range.1 ≤ code ∧ code ≤ range.2 := by
  induction ranges with
  | nil => simp [containsCode] at h
  | cons range rest ih =>
    obtain ⟨first, last⟩ := range
    unfold containsCode at h
    split at h
    · simp at h
    · split at h
      · exact ⟨(first, last), by simp, by omega, by omega⟩
      · obtain ⟨range, hmem, hin⟩ := ih h
        exact ⟨range, List.mem_cons_of_mem _ hmem, hin⟩

end CharRanges

end Filewise.Text
