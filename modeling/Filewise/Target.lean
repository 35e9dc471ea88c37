import Filewise.Path.Extension
import Filewise.Value

/-!
# Build targets

A target says which files of a source tree are taken, through which chain of
transformers each of them goes, and where the results are put.

## Main definitions

* `ChainEntry`: a transformer of a chain, with or without options of its own.
* `Target`: a target, and functions that add to one.
* `Target.chainFor?`: the chain for an extension.
-/

namespace Filewise

/-- An entry of a chain: a bare id, or an id with options for this place. -/
inductive ChainEntry where
  | bare (transformer : String)
  | configured (transformer : String) (options : Options)

namespace ChainEntry

/-- The id of the transformer. -/
def transformer : ChainEntry → String
  | .bare t | .configured t _ => t

/-- The options given in the entry. -/
def options? : ChainEntry → Option Options
  | .bare _ => none
  | .configured _ options => some options

/-- The entry as it is written in a configuration. -/
def toValue : ChainEntry → Value
  | .bare t => .text t
  | .configured t options => .object [("transformer", .text t), ("options", .object options)]

end ChainEntry

/-- A build target. -/
structure Target where
  id : String
  sourceRoot : Path
  outputRoot : Path
  includes : List String
  excludes : List String
  /-- Chains by extension; an extension may be written with its dot. -/
  chains : Dict (List ChainEntry)
  /-- The chain for files whose extensions have none. -/
  defaultChain : List ChainEntry
  /-- Options by transformer, for every place where it is used. -/
  transformers : Dict Options

namespace Target

/-- A target that copies everything. -/
def new (id : String) (sourceRoot outputRoot : Path) : Target :=
  { id, sourceRoot, outputRoot, includes := [], excludes := [], chains := []
    defaultChain := [], transformers := [] }

/-- Sets the chain for an extension, written with or without dots in front. -/
def withChain (t : Target) (extension : String) (entries : List ChainEntry) : Target :=
  { t with chains := t.chains.insert (Path.normalizeExtension extension) entries }

/-- Sets the chain for files whose extensions have none. -/
def withDefaultChain (t : Target) (entries : List ChainEntry) : Target :=
  { t with defaultChain := entries }

/-- Sets the options of a transformer. -/
def withTransformerOptions (t : Target) (id : String) (options : Options) : Target :=
  { t with transformers := t.transformers.insert id options }

/-- Adds a glob of files to take. -/
def withInclude (t : Target) (glob : String) : Target :=
  { t with includes := t.includes ++ [glob] }

/-- Adds a glob of files to leave out. -/
def withExclude (t : Target) (glob : String) : Target :=
  { t with excludes := t.excludes ++ [glob] }

/-- The chain for an extension: that of the extension as it is, or else that of
the extension with a dot in front. -/
def chainFor? (t : Target) (extension : String) : Option (List ChainEntry) :=
  (t.chains.find? extension).or (t.chains.find? ("." ++ extension))

/-- The target as it is written in a configuration. -/
def toValue (t : Target) : Value :=
  let chain (entries : List ChainEntry) : Value := .array (entries.map ChainEntry.toValue)
  .object
    [("id", .text t.id),
      ("source_root", .text t.sourceRoot.text),
      ("output_root", .text t.outputRoot.text),
      ("include", .array (t.includes.map .text)),
      ("exclude", .array (t.excludes.map .text)),
      ("chains", .object (t.chains.map fun (e, entries) => (e, chain entries))),
      ("default_chain", chain t.defaultChain),
      ("transformers", .object (t.transformers.map fun (id, o) => (id, .object o)))]

end Target

end Filewise
