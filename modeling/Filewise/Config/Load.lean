import Filewise.Config.Environment
import Filewise.Config.File

/-!
# Loading configurations

A configuration is put together from the files in the usual places, the file that is
asked for, and the environment, each a layer over those before. Only the file that is
asked for has to be there.

## Main definitions

* `BuildConfig.load`: the configuration of all layers.
* `BuildConfig.loadResolved`: the same, with the roots of its targets seen from the place
  of the file that is asked for.
-/

namespace Filewise.BuildConfig

/-- The usual places of configuration files in the working directory. -/
def usualNames : List Path :=
  let file := programName ++ ".toml"
  [⟨file⟩, ⟨"." ++ file⟩, ⟨"config/" ++ file⟩]

/-- The configuration file of the user. -/
def userFile? (env : Environment) : Option Path := do
  let directory ← env.configDirectory?
  return (directory.join ⟨programName⟩).join ⟨programName ++ ".toml"⟩

/-- The settings in a file that may be missing. -/
def layerIfFound (t : Tree) (name : Path) : Except LoadError (List (String × Setting)) :=
  match ConfigFile.find t name with
  | .ok file => file.layer
  | .error _ => .ok []

/-- The settings in a file that must be there. -/
def layerOf (t : Tree) (name : Path) : Except LoadError (List (String × Setting)) := do
  (← ConfigFile.find t name).layer

/-- The files that may be missing, in ascending order of their weight. -/
def optionalFiles (t : Tree) (env : Environment) : List Path :=
  usualNames ++ ((userFile? env).filter t.holds).toList

/-- All files that are looked for when a configuration is loaded. -/
def candidateFiles (t : Tree) (env : Environment) (file : Option Path) : List Path :=
  (usualNames ++ (userFile? env).toList ++ file.toList).flatMap fun name =>
    let p := t.workingPath.join name
    p :: ConfigFormat.all.map (ConfigFile.withExtension p)

/-- The layers of a configuration, the later ones over the earlier ones. -/
def layers (t : Tree) (env : Environment) (file : Option Path) :
    Except LoadError (List (List (String × Setting))) := do
  -- a file that is found must follow its format, even if it need not be there
  let optional ← (optionalFiles t env).mapM (layerIfFound t)
  let asked ← file.toList.mapM (layerOf t)
  return optional ++ asked ++ [env.layer]

/-- The configuration of all layers, if it is accepted. -/
def load (t : Tree) (env : Environment) (file : Option Path) : Except LoadError BuildConfig := do
  let settings := (← layers t env file).foldl Setting.overlay (Setting.table none [])
  match accepted settings with
  | .ok c => return c
  | .error e => throw (.settings e)

/-- The directory from which the roots of targets are seen: that of the file which is
asked for, or else the working directory. -/
def baseDirectory (t : Tree) (file : Option Path) : Path :=
  match file.bind Path.parent? with
  | some directory => if directory.text.isEmpty then t.workingPath else directory
  | none => t.workingPath

/-- The configuration of all layers with the roots of its targets seen from the base
directory. -/
def loadResolved (t : Tree) (env : Environment) (file : Option Path) :
    Except LoadError BuildConfig := do
  return (← load t env file).resolvePaths (baseDirectory t file)

end Filewise.BuildConfig
