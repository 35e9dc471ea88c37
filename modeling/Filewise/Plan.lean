import Filewise.Registry
import Filewise.Report
import Filewise.Source

/-!
# Plans

A plan lists what a build is going to do: one unit for each file of each target,
with the transformers it goes through and the place where the result goes. Files
that several units need are listed once.

## Main definitions

* `PlannedStep`, `PlannedUnit`, `Plan`.
* `UnitSummary`: a unit as it is shown.
-/

namespace Filewise

/-- A transformer with the options it gets for one file, which are valid. -/
structure PlannedStep where
  transformer : Transformer
  options : Options

/-- What is going to happen to one file for one target. -/
structure PlannedUnit where
  /-- The place of the target in the configuration. -/
  targetIndex : Nat
  target : String
  /-- The place of the source file in the plan. -/
  source : Nat
  /-- The transformers in order; without any, the file is copied. -/
  steps : List PlannedStep
  /-- Where the result goes, seen from the output root of the target. -/
  outputPath : Path
  /-- The transformer that determined the extension of the result. -/
  extensionSetBy : Option String

/-- Whether the file is copied as it is. -/
def PlannedUnit.isPassthrough (u : PlannedUnit) : Bool := u.steps.isEmpty

/-- What a build is going to do, and what it is not going to do because of errors. -/
structure Plan where
  sources : List Source
  units : List PlannedUnit
  errors : List UnitError

/-- A unit as it is shown. -/
structure UnitSummary where
  target : String
  source : Path
  output : Path
  chain : List String
  deriving DecidableEq, Repr

namespace Plan

/-- A source file that does not exist. -/
def noSource : Source := Source.new ⟨""⟩ ⟨""⟩

/-- The source file of a unit. -/
def sourceOf (p : Plan) (u : PlannedUnit) : Source := (p.sources[u.source]?).getD noSource

/-- A unit as it is shown. -/
def summary (p : Plan) (u : PlannedUnit) : UnitSummary :=
  { target := u.target
    source := (p.sourceOf u).relative
    output := u.outputPath
    chain := u.steps.map fun s => s.transformer.id }

/-- All units as they are shown. -/
def summaries (p : Plan) : List UnitSummary := p.units.map p.summary

end Plan

/-- A summary as a value. -/
def UnitSummary.toValue (s : UnitSummary) : Value :=
  .object [("target", .text s.target), ("source", .text s.source.text),
    ("output", .text s.output.text), ("chain", .array (s.chain.map .text))]

end Filewise
