import Filewise.Error
import Filewise.Report.Instant
import Filewise.Value.Printer

/-!
# Reports of builds

A build does not stop at the first problem. Every failure becomes an entry of the
report, with the target and the source file it belongs to, and the entries are
sorted, so that a report does not depend on the order in which units finished.

## Main definitions

* `UnitError`: a failure with its place.
* `UnitError.compare`: the order of entries.
* `Report`, `Report.ofTally`: the outcome of a build.
* `Report.render`, `Report.toValue`: a report for people and for programs.
-/

namespace Filewise

/-- A failure of a unit, or of a whole target if there is no source. -/
structure UnitError where
  target : String
  source : Option Path
  error : BuildError
  deriving DecidableEq, Repr

namespace UnitError

/-- The output path that the failure is about. -/
def output? (e : UnitError) : Option Path :=
  match e.error with
  | .outputCollision path _ => some path
  | _ => none

/-- The options that the failure is about. -/
def fields (e : UnitError) : List String :=
  match e.error with
  | .schemaValidation _ violations => violations.map Violation.field
  | _ => []

/-- The name of the kind of failure. -/
def kind (e : UnitError) : String := e.error.kind.name

/-- The sentence of the failure. -/
def message (e : UnitError) : String := e.error.message

/-- The order of optional things: nothing comes first. -/
def compareOptions {α : Type} (compare : α → α → Ordering) : Option α → Option α → Ordering
  | none, none => .eq
  | none, some _ => .lt
  | some _, none => .gt
  | some a, some b => compare a b

/-- The order of texts. -/
def compareTexts (s t : String) : Ordering := compareOfLessAndEq s t

/-- Failures are ordered by target, source, output, kind and transformer. -/
def compare (a b : UnitError) : Ordering :=
  (compareTexts a.target b.target).then <|
  (compareOptions Path.compare a.source b.source).then <|
  (compareOptions Path.compare a.output? b.output?).then <|
  (compareTexts a.kind b.kind).then <|
  compareOptions compareTexts a.error.transformer? b.error.transformer?

/-- A field of a report that is left out when there is nothing to say. -/
def optionalField (name : String) (text : Option String) : List (String × Value) :=
  (text.map fun s => (name, Value.text s)).toList

/-- A failure as fields. -/
def toValue (e : UnitError) : Value :=
  .object <|
    [("target", .text e.target)] ++
    optionalField "source" (e.source.map Path.text) ++
    optionalField "output" (e.output?.map Path.text) ++
    optionalField "transformer" e.error.transformer? ++
    (if e.fields.isEmpty then [] else [("fields", .array (e.fields.map .text))]) ++
    [("kind", .text e.kind), ("message", .text e.message)]

/-- A failure as a line of text. -/
def line (e : UnitError) : String :=
  let place := ((e.source <|> e.output?).map Path.text).getD "-"
  s!"❌ [{e.target}] {place}: {e.message}\n"

end UnitError

/-- Whether a build did everything it should. -/
inductive Outcome where
  | success
  | failure
  deriving DecidableEq, Repr

/-- The name of an outcome in reports. -/
def Outcome.name : Outcome → String
  | .success => "success"
  | .failure => "failure"

/-- What a build did. -/
structure Report where
  /-- How many units were planned. -/
  units : Nat
  /-- How many units with a chain were written. -/
  transformed : Nat
  /-- How many units without a chain were written. -/
  passthrough : Nat
  /-- Whether units were left out after a collision. -/
  halted : Bool
  errors : List UnitError
  started : Instant
  finished : Instant
  deriving DecidableEq, Repr

namespace Report

/-- Entries in the order of reports; equal ones keep their places. -/
def sortErrors (errors : List UnitError) : List UnitError :=
  errors.mergeSort fun a b => a.compare b != .gt

/-- The report of a build with the given counts and failures. -/
def ofTally (units transformed passthrough : Nat) (halted : Bool) (errors : List UnitError)
    (started finished : Instant) : Report :=
  { units, transformed, passthrough, halted, errors := sortErrors errors, started, finished }

/-- A build succeeds if nothing failed and nothing was left out. -/
def outcome (r : Report) : Outcome :=
  if r.errors.isEmpty && !r.halted then .success else .failure

/-- Whether the build succeeded. -/
def isSuccess (r : Report) : Bool := r.outcome == .success

/-- The exit code of a program that runs the build. -/
def exitCode (r : Report) : Nat := if r.isSuccess then 0 else 1

/-- How many units were written. -/
def written (r : Report) : Nat := r.transformed + r.passthrough

/-- The failures of the kind with the given name. -/
def errorsOfKind (r : Report) (kind : String) : List UnitError :=
  r.errors.filter fun e => e.kind == kind

/-- How long the build took, in milliseconds. -/
def elapsed (r : Report) : Int := r.finished.milliseconds - r.started.milliseconds

/-- The report as fields, in the order in which they are written. -/
def toValue (r : Report) : Value :=
  .object
    [("outcome", .text r.outcome.name), ("units", .integer r.units),
      ("transformed", .integer r.transformed), ("passthrough", .integer r.passthrough),
      ("halted", .bool r.halted), ("errors", .array (r.errors.map UnitError.toValue)),
      ("started_at", .text r.started.text), ("finished_at", .text r.finished.text)]

/-- The report as indented JSON. -/
def toJson (r : Report) : String := r.toValue.pretty

/-- The last line of a report. -/
def summary (r : Report) : String :=
  match r.outcome with
  | .success =>
    s!"✅ Built {r.written} file(s) ({r.transformed} transformed, {r.passthrough} copied) " ++
      s!"in {r.elapsed} ms\n"
  | .failure =>
    s!"❌ Build failed with {r.errors.length} error(s); {r.written} of {r.units} " ++
      s!"unit(s) written" ++ (if r.halted then " (stopped early)" else "") ++ "\n"

/-- The report as lines of text. -/
def render (r : Report) : String :=
  String.join (r.errors.map UnitError.line) ++ (if r.errors.isEmpty then "" else "\n") ++ r.summary

end Report

end Filewise
