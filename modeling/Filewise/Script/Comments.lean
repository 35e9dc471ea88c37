import Filewise.Script.Scanner

/-!
# Removing comments from a script

A script is read once and written again without its comments. Where a comment
spanned several lines its line ends stay, so that every line of the result comes
from the line of the same number. Block comments that open with an exclamation
mark state a licence and may be kept.

## Main definitions

* `stripComments`: what is left of a script.

## Main results

* `stripComments_eq`: it is what is left of each segment of the script.
-/

namespace Filewise.Script

/-- What is left of a script, or the opening in it that is never closed. -/
def stripComments (keepLicenses : Bool) (text : String) : Except Unterminated String :=
  Scanner.start.run keepLicenses text.toList

/-- What is left of a script is what is left of its segments. -/
theorem stripComments_eq (keepLicenses : Bool) (text : String) :
    stripComments keepLicenses text = (segments text.toList).map fun found =>
      String.ofList (found.flatMap (·.render keepLicenses)) := by
  rw [stripComments, Scanner.run_eq]
  simp [Scanner.start, segments]

example : stripComments false "a/* x\n*/b // c\n" = .ok "a\nb \n" := by cbv

end Filewise.Script
