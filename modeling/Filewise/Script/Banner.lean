/-!
# Adding a banner to a script

A fixed text becomes lines of its own at the top or at the bottom of a script.
-/

namespace Filewise.Script

/-- Where a banner goes. -/
inductive BannerPosition where
  | top
  | bottom
  deriving DecidableEq, Repr

/-- A script with a banner. At the bottom, a script that does not end its last
line is given a line end first. -/
def addBanner (text : String) (position : BannerPosition) (content : String) : String :=
  match position with
  | .top => text ++ "\n" ++ content
  | .bottom =>
    if content.isEmpty || content.toList.getLast? == some '\n' then content ++ text ++ "\n"
    else content ++ "\n" ++ text ++ "\n"

end Filewise.Script
