/-!
# Integers of 64 bits

Many integers have to fit into one machine word, with a sign or without. Their bounds
are written as plain numbers.

## Main definitions

* `Word.fitsSigned`, `Word.fitsUnsigned`: whether an integer fits.
-/

namespace Filewise.Word

/-- One more than the greatest integer with a sign. -/
def signedBound : Nat := 0x8000000000000000

/-- One more than the greatest integer without a sign. -/
def unsignedBound : Nat := 0x10000000000000000

/-- Whether an integer fits into a word with a sign. -/
def fitsSigned (n : Int) : Bool := -signedBound ≤ n && n < signedBound

/-- Whether a natural number fits into a word without a sign. -/
def fitsUnsigned (n : Nat) : Bool := n < unsignedBound

/-- An integer fits with a sign if it lies between the bounds. -/
theorem fitsSigned_iff {n : Int} :
    fitsSigned n = true ↔ -(signedBound : Int) ≤ n ∧ n < signedBound := by
  simp [fitsSigned]

end Filewise.Word
