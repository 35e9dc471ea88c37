import Filewise.Dict
import Filewise.Tree.Access

/-!
# Outputs

Every output path of a target belongs to the source file that claimed it first; a
claim by another source is refused. An output file is put in place complete, in
directories that are made for it.

## Main definitions

* `Outputs`: the claims, and how many files were written.
* `Outputs.claim`, `Outputs.write`.
* `WriteError`: why a file is not written.
-/

namespace Filewise

/-- A path of a target that belongs to a source. -/
structure Claim where
  target : String
  path : Path
  owner : Path
  deriving DecidableEq, Repr

/-- Why a file is not written. -/
inductive WriteError where
  | collision (target : String) (path owner : Path)
  | io (path : Path) (cause : IOCause)
  deriving DecidableEq, Repr

/-- The sentence of a write error. -/
def WriteError.message : WriteError → String
  | .collision target path owner =>
    s!"Output collision in target {target}: {path.text} already written by {owner.text}"
  | .io path cause => s!"IO error writing {path.text}: {cause.message}"

/-- The claims, and how many files were written. -/
structure Outputs where
  claims : List Claim
  written : Nat
  deriving DecidableEq, Repr

namespace Outputs

/-- Nothing is claimed and nothing written. -/
def empty : Outputs := ⟨[], 0⟩

/-- The source that a path of a target belongs to. -/
def owner? (o : Outputs) (target : String) (path : Path) : Option Path :=
  (o.claims.find? fun c => c.target == target && c.path.same path).map Claim.owner

/-- Claims a path of a target for a source. A source can claim its own path again. -/
def claim (o : Outputs) (target : String) (path source : Path) : Except WriteError Outputs :=
  match o.owner? target path with
  | none => .ok { o with claims := o.claims ++ [⟨target, path, source⟩] }
  | some owner => if owner.same source then .ok o else .error (.collision target path owner)

/-- A claim counts no file. -/
theorem written_of_claim {o o' : Outputs} {target : String} {path source : Path}
    (h : o.claim target path source = .ok o') : o'.written = o.written := by
  unfold claim at h
  split at h
  · obtain rfl := Except.ok.inj h
    rfl
  · split at h
    · obtain rfl := Except.ok.inj h
      rfl
    · simp at h

/-- Where an output file goes. -/
def destination (root path : Path) : Path := root.join path

/-- The directory of an output file. -/
def directory (root path : Path) : Path := ((destination root path).parent?).getD root

/-- Makes the directory of an output file. -/
def makeDirectory (tree : Tree) (root path : Path) : Tree × Except WriteError Unit :=
  match tree.makeDirectories (directory root path) with
  | (tree, .ok ()) => (tree, .ok ())
  | (tree, .error e) => (tree, .error (.io (destination root path) (.system e)))

/-- Puts an output file in place. -/
def place (tree : Tree) (root path : Path) (content : ByteArray) : Except WriteError Tree :=
  match tree.place (destination root path) content with
  | .ok tree => .ok tree
  | .error e => .error (.io (destination root path) (.system e))

/-- One more file was written. -/
def count (o : Outputs) : Outputs := { o with written := o.written + 1 }

/-- Claims a path of a target for a source and writes a file there. -/
def write (o : Outputs) (tree : Tree) (target : String) (root path source : Path)
    (content : ByteArray) : Outputs × Tree × Except WriteError Path :=
  match o.claim target path source with
  | .error e => (o, tree, .error e)
  | .ok o =>
    -- the claim stays with the source if writing fails
    match makeDirectory tree root path with
    | (tree, .error e) => (o, tree, .error e)
    | (tree, .ok ()) =>
      match place tree root path content with
      | .error e => (o, tree, .error e)
      | .ok tree => (o.count, tree, .ok (destination root path))

end Outputs

end Filewise
