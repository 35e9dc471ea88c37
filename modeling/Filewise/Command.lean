import Filewise.Path

/-!
# Commands

What the program can be asked to do: build, show the plan of a build, list the
transformers, or explain itself.

## Main definitions

* `Command`, with `BuildArguments` and `PlanArguments`.
* `HelpTopic`.
-/

namespace Filewise

/-- What a build is asked for with. -/
structure BuildArguments where
  /-- A configuration file over the usual ones. -/
  config : Option Path
  /-- The number of workers. -/
  workers : Option Nat
  /-- Where a report for programs is written. -/
  report : Option Path
  deriving DecidableEq, Repr

/-- What a plan is asked for with. -/
structure PlanArguments where
  /-- A configuration file over the usual ones. -/
  config : Option Path
  /-- Shows the plan to programs. -/
  isForPrograms : Bool
  deriving DecidableEq, Repr

/-- What can be explained. -/
inductive HelpTopic where
  | program
  | build
  | plan
  | transformers
  | help
  deriving DecidableEq, Repr

/-- What the program is asked to do. -/
inductive Command where
  | build (arguments : BuildArguments)
  | plan (arguments : PlanArguments)
  | transformers
  | help (topic : HelpTopic)
  deriving DecidableEq, Repr

end Filewise
