import Filewise.Target

/-!
# Which chain a file goes through

The chain of a file is the one configured for the longest of its extensions that
has one, and the default chain if none has. A file whose chain is empty passes
through unchanged.

## Main definitions

* `ChainStep`: a transformer with the options it gets for one file.
* `Target.entriesFor`: the entries that apply to a path.
* `Target.resolve`: the resolved chain of a path.
-/

namespace Filewise

/-- A step of a resolved chain. -/
structure ChainStep where
  transformer : String
  options : Options

/-- Which of the configured chains applies. -/
inductive ChainMatch where
  | extension (e : String)
  | default
  deriving DecidableEq, Repr

/-- What happens to a file. -/
inductive ResolvedChain where
  | passthrough
  | transform (matched : ChainMatch) (steps : List ChainStep)

namespace ResolvedChain

/-- Whether the file is copied as it is. -/
def isPassthrough : ResolvedChain → Bool
  | .passthrough => true
  | .transform _ _ => false

/-- The steps in order. -/
def steps : ResolvedChain → List ChainStep
  | .passthrough => []
  | .transform _ steps => steps

end ResolvedChain

namespace Target

/-- The options of an entry: its own ones over those of its transformer. -/
def optionsFor (t : Target) (entry : ChainEntry) : Options :=
  let base : Options := (t.transformers.find? entry.transformer).getD []
  base.overlay (entry.options?.getD [])

/-- The step for an entry of a chain. -/
def stepFor (t : Target) (entry : ChainEntry) : ChainStep :=
  ⟨entry.transformer, t.optionsFor entry⟩

/-- The entries that apply to a path, and why. -/
def entriesFor (t : Target) (p : Path) : ChainMatch × List ChainEntry :=
  -- candidates come longest first
  let found := p.extensionCandidates.findSome? fun e =>
    (t.chainFor? e).map fun entries => (ChainMatch.extension e, entries)
  found.getD (.default, t.defaultChain)

/-- The resolved chain of a path. -/
def resolve (t : Target) (p : Path) : ResolvedChain :=
  let (matched, entries) := t.entriesFor p
  if entries.isEmpty then .passthrough else .transform matched (entries.map t.stepFor)

end Target

end Filewise
