import Filewise.Plan

/-!
# Output paths

The result of a unit goes to the path of its source, with the extensions that the
transformers replace. Each transformer looks at the path that the ones before it
left, and replaces the longest extension that it knows.

## Main definitions

* `OutputPath.afterTransformer`: the path after one transformer.
* `OutputPath.ofSteps`: the path after all steps.
-/

namespace Filewise

/-- Where a result goes, and the transformer that replaced its extension last. -/
structure OutputPath where
  path : Path
  setBy : Option String
  deriving DecidableEq, Repr

namespace OutputPath

/-- The longest extension of a path that a transformer replaces, and by what. -/
def remapped? (t : Transformer) (p : Path) : Option (String × String) :=
  p.extensionCandidates.findSome? fun old => (t.remap? old).map fun new => (old, new)

/-- The output path after one more transformer. -/
def afterTransformer (o : OutputPath) (t : Transformer) : OutputPath :=
  match remapped? t o.path with
  | some (old, new) => ⟨o.path.replaceExtension old new, some t.id⟩
  | none => o

/-- The output path of a source after the steps of its chain. -/
def ofSteps (source : Path) (steps : List PlannedStep) : OutputPath :=
  steps.foldl (fun o s => o.afterTransformer s.transformer) ⟨source, none⟩

end OutputPath

end Filewise
