import Filewise.Output
import Filewise.Plan.Planner
import Filewise.Text.Utf8

/-!
# Working on a plan

Workers share the units of a plan. A worker takes the next unit, reads its source,
converts it, claims the output path, makes the directory and puts the result in
place; then it lets go of the source and takes down how it went. After a refused
claim no worker takes another unit. Each of these steps happens at once, and the
steps of different workers happen in any order.

## Main definitions

* `Project.convert`: what a unit makes of a source.
* `Pool`, `Worker`, `Phase`: the state of the work.
* `Pool.step?`: one step of one worker.
-/

namespace Filewise

/-! ### Units -/

/-- The text of a unit after its steps. -/
def runSteps (t : Target) (steps : List PlannedStep) (text : String) : Except BuildError String :=
  steps.foldlM (fun text step =>
    match step.transformer.run ⟨t.id, step.options, t⟩ text with
    | .ok text => .ok text
    | .error reason => .error (.contentTransform step.transformer.id reason)) text

/-- What the steps of a unit make of a source. Without steps the source need not be
a text. -/
def convert (t : Target) (steps : List PlannedStep) (source : ByteArray) :
    Except BuildError ByteArray :=
  match steps with
  | [] => .ok source
  | first :: _ =>
    match Utf8.decode source with
    | .error fault =>
      .error (.contentTransform first.transformer.id
        ("source is not valid UTF-8: " ++ fault.message))
    | .ok text => String.toUTF8 <$> runSteps t steps text

/-- The target that a unit was planned for. -/
def BuildConfig.targetOf (c : BuildConfig) (u : PlannedUnit) (source : Path) :
    Except BuildError Target :=
  match (c.targets[u.targetIndex]?).filter fun t => t.id == u.target with
  | some t => .ok t
  | none =>
    .error (.config s!"unit {source.text} was planned for unknown target '{u.target}'")

/-- The error for a unit whose output is not written. -/
def unitError (source : Path) : WriteError → BuildError
  | .collision _ path owner => .outputCollision path [owner, source]
  | .io path cause => .io path cause

/-! ### Workers -/

/-- How a unit went. -/
abbrev UnitResult := Except BuildError Unit

/-- What a worker is about to do. -/
inductive Phase where
  /-- See whether the work is halted. -/
  | looking
  /-- Take the next unit. -/
  | taking
  /-- Read and convert the source of a unit. -/
  | converting (unit : Nat)
  /-- Claim the output path for a result. -/
  | claiming (unit : Nat) (target : Target) (content : ByteArray)
  /-- Make the directory for a result. -/
  | makingDirectory (unit : Nat) (target : Target) (content : ByteArray)
  /-- Put a result in place. -/
  | placing (unit : Nat) (target : Target) (content : ByteArray)
  /-- Let go of the source of a unit. -/
  | releasing (unit : Nat) (result : UnitResult)
  /-- Drop a source that nobody needs any more. -/
  | dropping (unit : Nat) (result : UnitResult)
  /-- Take down how a unit went. -/
  | recording (unit : Nat) (result : UnitResult)
  /-- Nothing; there are no more units. -/
  | finished

/-- What a worker has taken down. -/
structure Tally where
  transformed : Nat
  passthrough : Nat
  errors : List UnitError
  deriving DecidableEq, Repr

/-- Nothing is taken down. -/
def Tally.empty : Tally := ⟨0, 0, []⟩

/-- A worker. -/
structure Worker where
  phase : Phase
  tally : Tally

/-- What the workers share. -/
structure Shared where
  tree : Tree
  sources : List Source
  outputs : Outputs
  /-- How many units have been taken. -/
  taken : Nat
  isHalted : Bool

/-- The state of the work. -/
structure Pool where
  shared : Shared
  workers : List Worker

namespace Shared

/-- A source file. -/
def source (s : Shared) (u : PlannedUnit) : Source := (s.sources[u.source]?).getD Plan.noSource

/-- Asks for the content of the source of a unit. -/
def read (s : Shared) (u : PlannedUnit) : Shared × Except BuildError ByteArray :=
  let (source, answer) := (s.source u).read s.tree
  ({ s with sources := s.sources.set u.source source }, answer)

/-- The target of a unit, and what the unit makes of its source. -/
def convert (s : Shared) (c : BuildConfig) (u : PlannedUnit) :
    Shared × Except BuildError (Target × ByteArray) :=
  match c.targetOf u (s.source u).relative with
  | .error e => (s, .error e)
  | .ok t =>
    match s.read u with
    | (s, .error e) => (s, .error e)
    | (s, .ok raw) => (s, (t, ·) <$> Filewise.convert t u.steps raw)

/-- Claims the output path of a unit. -/
def claim (s : Shared) (t : Target) (u : PlannedUnit) : Except BuildError Shared :=
  let source := (s.source u).relative
  match s.outputs.claim t.id u.outputPath source with
  | .ok outputs => .ok { s with outputs }
  | .error e => .error (unitError source e)

/-- Makes the directory for the output of a unit. -/
def makeDirectory (s : Shared) (t : Target) (u : PlannedUnit) : Shared × UnitResult :=
  match Outputs.makeDirectory s.tree t.outputRoot u.outputPath with
  | (tree, .ok ()) => ({ s with tree }, .ok ())
  | (tree, .error e) => ({ s with tree }, .error (unitError (s.source u).relative e))

/-- Puts the output of a unit in place and counts it. -/
def place (s : Shared) (t : Target) (u : PlannedUnit) (content : ByteArray) : Shared × UnitResult :=
  match Outputs.place s.tree t.outputRoot u.outputPath content with
  | .ok tree => ({ s with tree, outputs := s.outputs.count }, .ok ())
  | .error e => (s, .error (unitError (s.source u).relative e))

/-- Lets go of the source of a unit; says whether nobody needs it any more. -/
def release (s : Shared) (u : PlannedUnit) : Shared × Bool :=
  ({ s with sources := s.sources.modify u.source Source.forget }, (s.source u).users == 1)

/-- Drops the source of a unit. -/
def drop (s : Shared) (u : PlannedUnit) : Shared :=
  { s with sources := s.sources.modify u.source Source.drop }

/-- Halts the work if a unit failed because its output path belongs to another one. -/
def haltAfter (s : Shared) (result : UnitResult) : Shared :=
  match result with
  | .error (.outputCollision _ _) => { s with isHalted := true }
  | _ => s

end Shared

/-- The notes of a worker after one more unit. -/
def Tally.add (y : Tally) (u : PlannedUnit) (source : Path) (result : UnitResult) : Tally :=
  match result with
  | .ok () =>
    if u.isPassthrough then { y with passthrough := y.passthrough + 1 }
    else { y with transformed := y.transformed + 1 }
  | .error e => { y with errors := y.errors ++ [⟨u.target, some source, e⟩] }

/-- What a worker does next, by its phase. A worker that has finished, or that is at
a unit which does not exist, does nothing. -/
def Worker.step? (c : BuildConfig) (units : List PlannedUnit) (s : Shared) (w : Worker) :
    Option (Shared × Worker) :=
  let go (s : Shared) (phase : Phase) : Option (Shared × Worker) := some (s, { w with phase })
  match w.phase with
  | .finished => none
  | .looking => go s (if s.isHalted then .finished else .taking)
  | .taking =>
    -- the count goes up even if there is no unit left to take
    go { s with taken := s.taken + 1 }
      (if s.taken < units.length then .converting s.taken else .finished)
  | .converting i => do
    match s.convert c (← units[i]?) with
    | (s, .ok (t, content)) => go s (.claiming i t content)
    | (s, .error e) => go s (.releasing i (.error e))
  | .claiming i t content => do
    match s.claim t (← units[i]?) with
    | .ok s => go s (.makingDirectory i t content)
    -- a refused claim leaves the tree alone
    | .error e => go s (.releasing i (.error e))
  | .makingDirectory i t content => do
    match s.makeDirectory t (← units[i]?) with
    | (s, .ok ()) => go s (.placing i t content)
    | (s, .error e) => go s (.releasing i (.error e))
  | .placing i t content => do
    let (s, result) := s.place t (← units[i]?) content
    go s (.releasing i result)
  | .releasing i result => do
    let (s, isLast) := s.release (← units[i]?)
    go s (if isLast then .dropping i result else .recording i result)
  | .dropping i result => do go (s.drop (← units[i]?)) (.recording i result)
  | .recording i result => do
    let u ← units[i]?
    -- other workers see the halt only when they look the next time
    return (s.haltAfter result, ⟨.looking, w.tally.add u (s.source u).relative result⟩)

namespace Pool

/-- The work on a plan before its first step. There are no more workers than units. -/
def start (workers : Nat) (p : Plan) (tree : Tree) : Pool :=
  { shared :=
      { tree, sources := p.sources, outputs := Outputs.empty, taken := 0, isHalted := false }
    workers := List.replicate (min workers p.units.length) ⟨.looking, Tally.empty⟩ }

/-- One step of one worker. -/
def step? (c : BuildConfig) (units : List PlannedUnit) (pool : Pool) (worker : Nat) :
    Option Pool := do
  let (shared, w) ← (← pool.workers[worker]?).step? c units pool.shared
  return { shared, workers := pool.workers.set worker w }

/-- The notes of all workers, worker by worker. -/
def tally (pool : Pool) : Tally :=
  pool.workers.foldl (fun y w =>
    ⟨y.transformed + w.tally.transformed, y.passthrough + w.tally.passthrough,
      y.errors ++ w.tally.errors⟩) Tally.empty

end Pool

end Filewise
