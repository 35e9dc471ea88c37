import Filewise.Target
import Filewise.Text.CharClass

/-!
# Build configurations

A configuration is a list of targets and the number of workers. It is accepted
if there is a target, the ids of the targets are neither blank nor used twice, no
chain is configured for nothing, and at least one worker is asked for.

## Main definitions

* `BuildConfig`.
* `ConfigFault`: why a configuration is refused.
* `BuildConfig.fault?`: the first fault of a configuration.
* `BuildConfig.resolvePaths`: relative roots seen from a directory.
-/

namespace Filewise

/-- A build configuration. -/
structure BuildConfig where
  /-- The number of workers, if it is configured. -/
  concurrency : Option Nat
  targets : List Target

/-- Why a configuration is refused. -/
inductive ConfigFault where
  | noTargets
  | blankId
  | duplicateId (id : String)
  | emptyExtension (target : String)
  | noWorkers
  deriving DecidableEq, Repr

/-- The sentence of a fault. -/
def ConfigFault.message : ConfigFault → String
  | .noTargets => "no targets configured"
  | .blankId => "target id must not be empty"
  | .duplicateId id => s!"duplicate target id '{id}'"
  | .emptyExtension target => s!"target '{target}' has a chain with an empty extension key"
  | .noWorkers => "concurrency must be at least 1"

namespace BuildConfig

/-- The first fault of a list of targets, given the ids of those before. -/
def targetFault? (seen : List String) : List Target → Option ConfigFault
  | [] => none
  | t :: rest =>
    if (Text.trim t.id.toList).isEmpty then some .blankId
    else if seen.contains t.id then some (.duplicateId t.id)
    else if t.chains.keys.any fun e => (Path.normalizeExtension e).isEmpty then
      some (.emptyExtension t.id)
    else targetFault? (t.id :: seen) rest

/-- The first fault of a configuration. -/
def fault? (c : BuildConfig) : Option ConfigFault :=
  if c.targets.isEmpty then some .noTargets
  else
    match targetFault? [] c.targets with
    | some fault => some fault
    | none => if c.concurrency = some 0 then some .noWorkers else none

/-- A path seen from a directory, unless it is absolute. -/
def resolvePath (base p : Path) : Path := if p.isAbsolute then p else base.join p

/-- Sees the roots of all targets from a directory. -/
def resolvePaths (c : BuildConfig) (base : Path) : BuildConfig :=
  { c with targets := c.targets.map fun t =>
      { t with
        sourceRoot := resolvePath base t.sourceRoot
        outputRoot := resolvePath base t.outputRoot } }

/-- The target with an id. -/
def target? (c : BuildConfig) (id : String) : Option Target := c.targets.find? (·.id == id)

/-- The number of workers, given how many there are if it is not configured. -/
def workers (c : BuildConfig) (available : Nat) : Nat := c.concurrency.getD available

/-- The configuration as it is written. -/
def toValue (c : BuildConfig) : Value :=
  let concurrency : Value := match c.concurrency with
    | some n => .integer n
    | none => .null
  .object
    [("build", .object [("concurrency", concurrency)]),
      ("targets", .array (c.targets.map Target.toValue))]

end BuildConfig

end Filewise
