import Filewise.Config
import Filewise.Value.Decode

/-!
# Configurations from values

A configuration is a record of the settings of the build and the targets. An
entry of a chain is a text, or a record of its own that has no other field than
those of an entry.

## Main definitions

* `Decode.chainEntry`, `Decode.target`.
* `BuildConfig.ofValue`: the configuration a value describes.
-/

namespace Filewise

namespace Decode

/-- An entry of a chain: an id, or a record of id and options with no other field. -/
def chainEntry? : Value → Option ChainEntry
  | .text s => some (.bare s)
  | .object fields =>
    match Dict.find? fields "transformer", Dict.find? fields "options" with
    | some (.text t), none => if fields.length = 1 then some (.configured t []) else none
    | some (.text t), some (.object options) =>
      if fields.length = 2 then some (.configured t options) else none
    | _, _ => none
  | .array [.text t] => some (.configured t [])
  | .array [.text t, .object options] => some (.configured t options)
  | _ => none

/-- An entry of a chain. -/
def chainEntry (v : Value) : Except Mismatch ChainEntry :=
  match chainEntry? v with
  | some entry => .ok entry
  | none => .error (.noVariant "ChainEntry")

/-- The fields of a target in order. -/
def targetFields : List String :=
  ["id", "source_root", "output_root", "include", "exclude", "chains", "default_chain",
    "transformers"]

/-- The fields of a target as far as they have been read. -/
structure TargetDraft where
  id : Option String := none
  sourceRoot : Option Path := none
  outputRoot : Option Path := none
  includes : Option (List String) := none
  excludes : Option (List String) := none
  chains : Option (Dict (List ChainEntry)) := none
  defaultChain : Option (List ChainEntry) := none
  transformers : Option (Dict Options) := none

namespace TargetDraft

/-- Reads one field. -/
def set (d : TargetDraft) (name : String) (v : Value) : Except Mismatch TargetDraft := do
  match name with
  | "id" => return { d with id := ← text v }
  | "source_root" => return { d with sourceRoot := ← path v }
  | "output_root" => return { d with outputRoot := ← path v }
  | "include" => return { d with includes := ← list text v }
  | "exclude" => return { d with excludes := ← list text v }
  | "chains" => return { d with chains := ← dict (list chainEntry) v }
  | "default_chain" => return { d with defaultChain := ← list chainEntry v }
  | "transformers" => return { d with transformers := ← dict options v }
  | _ => return d

/-- The source root of a target that names none. -/
def defaultSourceRoot : Path := ⟨"src"⟩

/-- The target with what was read, once id and output root are known. -/
def complete (d : TargetDraft) (id : String) (outputRoot : Path) : Target :=
  { id, outputRoot
    sourceRoot := d.sourceRoot.getD defaultSourceRoot
    includes := d.includes.getD []
    excludes := d.excludes.getD []
    chains := d.chains.getD []
    defaultChain := d.defaultChain.getD []
    transformers := d.transformers.getD [] }

end TargetDraft

/-- A target. -/
def target (v : Value) : Except Mismatch Target := do
  let d ← record "BundlessConfig" targetFields ({} : TargetDraft) TargetDraft.set v
  let id ← required "BundlessConfig" targetFields v "id" d.id
  let outputRoot ← required "BundlessConfig" targetFields v "output_root" d.outputRoot
  return d.complete id outputRoot

/-- The settings of a build: the number of workers, which may be left out. -/
def settings : Value → Except Mismatch (Option Nat) :=
  record "BuildSettings" ["concurrency"] none fun _ _ v =>
    match v with
    | .null => .ok none
    | v => some <$> count v

end Decode

/-- The configuration a value describes, whether or not it is accepted. -/
def BuildConfig.ofValue : Value → Except Mismatch BuildConfig :=
  Decode.record "BuildConfig" ["build", "targets"] ⟨none, []⟩ fun c name v => do
    match name with
    | "build" => return { c with concurrency := ← Decode.settings v }
    | _ => return { c with targets := ← Decode.list Decode.target v }

end Filewise
