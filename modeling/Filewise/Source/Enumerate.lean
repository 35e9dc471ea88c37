import Filewise.Glob.Filter
import Filewise.Target
import Filewise.Tree.Access

/-!
# The files of a target

The source tree of a target is walked from its root. Directories that the globs
of the target drop are not entered, nor are places that have to be skipped, such
as output directories inside the source tree.

## Main definitions

* `Target.filter`: the filter of the globs of a target.
* `Tree.walkFiles`: the files inside a directory that are not dropped.
* `Target.enumerate`: the files of a target in ascending order.
-/

namespace Filewise

namespace Tree

/-- What stands directly in a directory, by names. -/
def children (t : Tree) (directory : Location) : List (String × Entry) :=
  t.entries.filterMap fun (l, e) =>
    match l.reverse with
    | name :: above => if above.reverse = directory then some (name, e) else none
    | [] => none

/-- The files inside a directory and the directories below, down to a depth. What
is dropped is left out, with everything inside it. Files are given by the names
that lead to them from where the walk began. -/
def walkFiles (t : Tree) (drops : Location → Bool → Bool) :
    Nat → Location → Location → List Location
  | 0, _, _ => []
  | depth + 1, directory, relative =>
    (t.children directory).flatMap fun (name, e) =>
      let next := relative ++ [name]
      match e with
      | .file _ => if drops next false then [] else [next]
      | .directory =>
        if drops next true then [] else walkFiles t drops depth (directory ++ [name]) next

/-- The number of names in the longest location. -/
def depth (t : Tree) : Nat := (t.entries.map fun (l, _) => l.length).foldl max 0

end Tree

namespace Target

/-- The rules that lines describe, or the first line that is not a rule, with the
glob that it was made from. -/
def rulesFor (mark : String) (globs : List String) :
    Except (String × Glob.LineFault) (List Glob.Rule) :=
  globs.foldlM (fun rules glob =>
    match Glob.Rule.parse? (mark ++ glob) with
    | .ok rule => .ok (rules ++ rule.toList)
    | .error fault => .error (glob, fault)) []

/-- The filter of a target: its globs to take, followed by its globs to leave out. -/
def filter (t : Target) : Except (String × Glob.LineFault) Glob.Filter := do
  let includes ← rulesFor "" t.includes
  let excludes ← rulesFor "!" t.excludes
  return ⟨includes ++ excludes⟩

/-- Whether a path lies at or under one of the given places, of which only those
strictly inside the source root count. -/
def isSkipped (t : Target) (skip : List Path) (relative : Location) : Bool :=
  skip.any fun s =>
    s.startsWith t.sourceRoot && !s.same t.sourceRoot &&
      (t.sourceRoot.join (Path.ofNames relative)).startsWith s

/-- The relative paths of the files of a target, in ascending order. -/
def enumerate (t : Target) (tree : Tree) (skip : List Path) : Except BuildError (List Path) := do
  match tree.resolve t.sourceRoot with
  | .error _ => throw (.io t.sourceRoot (.other "source root is not a directory"))
  | .ok root =>
    if !tree.hasDirectory root then
      throw (.io t.sourceRoot (.other "source root is not a directory"))
    -- the globs are looked at only if there is a directory to walk
    match t.filter with
    | .error (glob, fault) =>
      throw (.config s!"target '{t.id}': invalid glob '{glob}': {fault.message}")
    | .ok filter =>
      let drops (relative : Location) (isDirectory : Bool) : Bool :=
        filter.drops relative isDirectory || t.isSkipped skip relative
      -- a walk goes along names, but paths are compared by components
      let files := tree.walkFiles drops (tree.depth + 1) root []
      return (files.map Path.ofNames).mergeSort fun p q => p.compare q != .gt

end Target

end Filewise
