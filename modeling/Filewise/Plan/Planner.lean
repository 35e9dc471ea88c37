import Filewise.Config
import Filewise.Plan.OutputPath
import Filewise.Plan.Validation
import Filewise.Source.Enumerate

/-!
# Making plans

A plan is made target by target and file by file, without reading or writing any
file. A file whose chain is wrong is left out, and every error of its chain is
reported. Files of a target that would go to the same place are all left out, and
the place is reported once.

## Main definitions

* `Project`: a configuration, a registry and a number of workers.
* `Planner.planFile`, `Planner.planTarget`.
* `Project.plan`: the plan for a file tree.
-/

namespace Filewise

/-- What a build is made from. -/
structure Project where
  config : BuildConfig
  registry : Registry
  /-- How many units are worked on at the same time. -/
  workers : Nat

namespace Project

/-- A project with as many workers as configured, or else as many as available. -/
def new (config : BuildConfig) (registry : Registry) (available : Nat) : Project :=
  ⟨config, registry, config.workers available⟩

/-- A project with another number of workers, of which there is at least one. -/
def withWorkers (p : Project) (workers : Nat) : Project := { p with workers := max workers 1 }

end Project

/-- A plan that is being made. -/
structure Planner where
  cache : ValidationCache
  sources : List Source
  units : List PlannedUnit
  errors : List UnitError

namespace Planner

/-- Nothing is planned. -/
def empty : Planner := ⟨ValidationCache.empty, [], [], []⟩

/-- Adds an error. -/
def fail (p : Planner) (target : String) (source : Option Path) (e : BuildError) : Planner :=
  { p with errors := p.errors ++ [⟨target, source, e⟩] }

/-- The step for a step of a chain, or what is wrong with it. -/
def planStep [Schema.Compiler] (registry : Registry) (cache : ValidationCache)
    (step : ChainStep) : ValidationCache × Except BuildError PlannedStep :=
  match registry.resolve step.transformer with
  | .error e => (cache, .error (.registry e))
  | .ok t =>
    match cache.validate t step with
    | (cache, .ok options) => (cache, .ok ⟨t, options⟩)
    | (cache, .error violations) =>
      (cache, .error (.schemaValidation step.transformer violations))

/-- The steps for a chain, and everything that is wrong with it. -/
def planSteps [Schema.Compiler] (registry : Registry) (cache : ValidationCache) :
    List ChainStep → ValidationCache × List PlannedStep × List BuildError
  | [] => (cache, [], [])
  | step :: rest =>
    -- every step is looked at, also after one that is wrong
    let (cache, planned) := planStep registry cache step
    let (cache, steps, errors) := planSteps registry cache rest
    match planned with
    | .ok s => (cache, s :: steps, errors)
    | .error e => (cache, steps, e :: errors)

/-- The place of a source file, which is added unless it is there. Two targets can
share a file; it is shown as the first of them sees it. -/
def addSource (sources : List Source) (absolute relative : Path) : List Source × Nat :=
  match sources.findIdx? fun s => s.absolute.same absolute with
  | some i => (sources, i)
  | none => (sources ++ [Source.new absolute relative], sources.length)

/-- Plans one file of a target: a unit that goes to its output path if no other one
does, or the errors of its chain. -/
def planFile [Schema.Compiler] (registry : Registry) (targetIndex : Nat) (t : Target)
    (p : Planner × List PlannedUnit) (relative : Path) : Planner × List PlannedUnit :=
  let (p, candidates) := p
  let (cache, steps, errors) := planSteps registry p.cache (t.resolve relative).steps
  let p := { p with cache }
  if errors.isEmpty then
    let output := OutputPath.ofSteps relative steps
    let (sources, source) := addSource p.sources (t.sourceRoot.join relative) relative
    ({ p with sources }, candidates ++
      [{ targetIndex, target := t.id, source, steps
         outputPath := output.path, extensionSetBy := output.setBy }])
  else (errors.foldl (fun p e => p.fail t.id (some relative) e) p, candidates)

/-- Units that go to the same place. -/
structure OutputGroup where
  path : Path
  units : List PlannedUnit

/-- Adds a unit to the group of its output path. Groups are in ascending order. -/
def addToGroup (u : PlannedUnit) : List OutputGroup → List OutputGroup
  | [] => [⟨u.outputPath, [u]⟩]
  | g :: rest =>
    match u.outputPath.compare g.path with
    | .lt => ⟨u.outputPath, [u]⟩ :: g :: rest
    | .eq => { g with units := g.units ++ [u] } :: rest
    | .gt => g :: addToGroup u rest

/-- Units by their output paths. -/
def groups (units : List PlannedUnit) : List OutputGroup :=
  units.foldl (fun gs u => addToGroup u gs) []

/-- The path of a source file as it is shown. -/
def shownSource (p : Planner) (u : PlannedUnit) : Path :=
  ((p.sources[u.source]?).getD Plan.noSource).relative

/-- Plans the only unit of a group; several units of one group are an error. -/
def settle (target : String) (p : Planner) (g : OutputGroup) : Planner :=
  match g.units with
  | [u] =>
    { p with
      units := p.units ++ [u]
      sources := p.sources.modify u.source Source.retain }
  | units => p.fail target none (.outputCollision g.path (units.map p.shownSource))

/-- The error of a target whose output root contains its source root. -/
def containment (t : Target) : BuildError :=
  .config <| s!"target '{t.id}': output root {t.outputRoot.text} contains source root " ++
    t.sourceRoot.text

/-- Plans one target. -/
def planTarget [Schema.Compiler] (registry : Registry) (tree : Tree) (skip : List Path)
    (p : Planner) (targetIndex : Nat) (t : Target) : Planner :=
  -- a build must not write over what it reads
  if t.sourceRoot.startsWith t.outputRoot then p.fail t.id none (containment t)
  else
    match t.enumerate tree skip with
    | .error e => p.fail t.id none e
    | .ok files =>
      let (p, candidates) := files.foldl (planFile registry targetIndex t) (p, [])
      (groups candidates).foldl (settle t.id) p

end Planner

/-- The plan of a project for a file tree. The output roots of all targets are left
out wherever they lie inside a source root. -/
def Project.plan [Schema.Compiler] (project : Project) (tree : Tree) : Plan :=
  let targets := project.config.targets
  let skip := targets.map Target.outputRoot
  let p := targets.zipIdx.foldl
    (fun p (t, i) => p.planTarget project.registry tree skip i t) Planner.empty
  ⟨p.sources, p.units, p.errors⟩

end Filewise
