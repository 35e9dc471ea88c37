import Filewise.Error
import Filewise.Tree

/-!
# Access to a file tree by paths

A path is followed name by name through directories; a double dot leads back to
the directory above. Operations fail for the reasons for which a system refuses
them, and a failing operation changes nothing, except that directories which were
made on the way stay.

## Main definitions

* `Tree.resolve`: the location that a path leads to.
* `Tree.read`, `Tree.isDirectory`.
* `Tree.makeDirectory`, `Tree.makeDirectories`, `Tree.place`, `Tree.overwrite`.
-/

namespace Filewise.Tree

/-- The greatest number of bytes of a name. -/
def longestName : Nat := 255

/-- The greatest number of bytes of a path. -/
def longestPath : Nat := 4095

/-- Whether a name is too long. -/
def isTooLong (name : List Char) : Bool := longestName < (String.ofList name).utf8ByteSize

/-- Follows the texts between the slashes of a path. Every text is looked up in a
directory, also the ones that stand for nothing. -/
def walk (t : Tree) (place : Location) : List (List Char) → Except SystemError Location
  | [] => .ok place
  | segment :: rest =>
    if t.hasDirectory place then
      -- even a segment that leads nowhere has to stand in a directory
      if segment = [] ∨ segment = ['.'] then walk t place rest
      else if segment = ['.', '.'] then walk t place.dropLast rest
      else if isTooLong segment then .error .nameTooLong
      else
        let next := place ++ [String.ofList segment]
        if (t.find? next).isSome then walk t next rest else .error .notFound
    else .error .notDirectory

/-- Where following a path begins. -/
def start (t : Tree) (p : Path) : Location := if p.isAbsolute then [] else t.workingDirectory

/-- Why a path is not followed at all. -/
def refusal? (p : Path) : Option SystemError :=
  if p.text.isEmpty then some .notFound
  else if p.text.toList.contains '\x00' then some .nulInPath
  else if longestPath < p.text.utf8ByteSize then some .nameTooLong
  else none

/-- The location that a path leads to. -/
def resolve (t : Tree) (p : Path) : Except SystemError Location :=
  match refusal? p with
  | some e => .error e
  | none => t.walk (t.start p) p.segments

/-- Whether a path leads to a directory. -/
def isDirectory (t : Tree) (p : Path) : Bool :=
  match t.resolve p with
  | .ok location => t.hasDirectory location
  | .error _ => false

/-- The content of the file that a path leads to. -/
def read (t : Tree) (p : Path) : Except SystemError ByteArray := do
  let location ← t.resolve p
  match t.find? location with
  | some (.file content) => return content
  | some .directory => throw .isDirectory
  | none => throw .notFound

/-- Whether a path leads to anything. -/
def holds (t : Tree) (p : Path) : Bool :=
  match t.resolve p with
  | .ok location => (t.find? location).isSome
  | .error _ => false

/-- The path of the working directory. -/
def workingPath (t : Tree) : Path := ⟨"/" ++ String.intercalate "/" t.workingDirectory⟩

/-- What a path ends in. -/
inductive Ending where
  /-- A name, perhaps followed by a slash. -/
  | name (segment : List Char) (slash : Bool)
  /-- A dot, a double dot, or nothing. -/
  | other

/-- The texts between slashes before the last name of a path, and that name. -/
def splitLast (segments : List (List Char)) : List (List Char) × Ending :=
  let kept := segments.reverse.dropWhile List.isEmpty
  match kept with
  | [] => (segments, .other)
  | last :: before =>
    let ending := if last = ['.'] ∨ last = ['.', '.'] then .other
      else .name last (kept.length < segments.length)
    (before.reverse, ending)

/-- The directory in which a path names something, and what it ends in. -/
def resolveParent (t : Tree) (p : Path) : Except SystemError (Location × Ending) :=
  match refusal? p with
  | some e => .error e
  | none => do
    let (before, ending) := splitLast p.segments
    let directory ← t.walk (t.start p) before
    if t.hasDirectory directory then return (directory, ending) else throw .notDirectory

/-- Makes a directory in an existing one. -/
def makeDirectory (t : Tree) (p : Path) : Except SystemError Tree := do
  let (directory, ending) ← t.resolveParent p
  match ending with
  | .other => throw .exists
  | .name segment _ =>
    if isTooLong segment then throw .nameTooLong
    let location := directory ++ [String.ofList segment]
    if (t.find? location).isSome then throw .exists
    return t.put location .directory

/-- Makes a directory unless there is one, given what to do if the one above it is
missing. -/
def makeDirectoryOr (t : Tree) (p : Path) (ifMissing : Tree × Except SystemError Unit) :
    Tree × Except SystemError Unit :=
  match t.makeDirectory p with
  | .ok t => (t, .ok ())
  | .error .notFound => ifMissing
  | .error e => if t.isDirectory p then (t, .ok ()) else (t, .error e)

/-- Makes a directory and those above it that are missing, up to the given number
of levels. What was made before a failure stays. -/
def makeDirectoriesWithin : Nat → Tree → Path → Tree × Except SystemError Unit
  | 0, t, _ => (t, .error .notFound)
  | levels + 1, t, p =>
    if p.text.isEmpty then (t, .ok ())
    else t.makeDirectoryOr p <|
      match p.parent? with
      | none => (t, .error .notFound)
      | some above =>
        match makeDirectoriesWithin levels t above with
        | (t, .error e) => (t, .error e)
        | (t, .ok ()) => t.makeDirectoryOr p (t, .error .notFound)

/-- Makes a directory and those above it that are missing. -/
def makeDirectories (t : Tree) (p : Path) : Tree × Except SystemError Unit :=
  makeDirectoriesWithin (p.segments.length + 1) t p

/-- Puts a file with the given content in place, at once and over an older file.
The file is complete before it gets its name, so no other content is ever seen. -/
def place (t : Tree) (p : Path) (content : ByteArray) : Except SystemError Tree := do
  let (directory, ending) ← t.resolveParent p
  match ending with
  | .other => throw .busy
  | .name segment slash =>
    if isTooLong segment then throw .nameTooLong
    -- a file cannot be named with a slash at its end
    if slash then throw .notDirectory
    let location := directory ++ [String.ofList segment]
    if t.hasDirectory location then throw .isDirectory
    return t.put location (.file content)

/-- Writes a file, which is made if there is none. -/
def overwrite (t : Tree) (p : Path) (content : ByteArray) : Except SystemError Tree := do
  let (directory, ending) ← t.resolveParent p
  match ending with
  | .other | .name _ true => throw .isDirectory
  | .name segment false =>
    if isTooLong segment then throw .nameTooLong
    let location := directory ++ [String.ofList segment]
    if t.hasDirectory location then throw .isDirectory
    return t.put location (.file content)

end Filewise.Tree
