import Filewise.Path

/-!
# Extensions of file names

The extensions of a file are what follows the dots in its name, from the longest
to the shortest; a dot at the very start of the name does not count.

## Main definitions

* `Path.extensionCandidates`: the extensions of a path, longest first.
* `Path.replaceExtension`: another extension in place of one of them.
-/

namespace Filewise.Path

/-- What follows each dot of a text, longest first. -/
def afterDots : List Char → List (List Char)
  | [] => []
  | c :: rest => if c = '.' then rest :: afterDots rest else afterDots rest

/-- A name without the dot it may start with. -/
def withoutLeadingDot : List Char → List Char
  | '.' :: rest => rest
  | name => name

/-- The extensions of a file name, longest first. -/
def nameExtensions (name : String) : List String :=
  ((afterDots (withoutLeadingDot name.toList)).filter (¬ ·.isEmpty)).map String.ofList

/-- The extensions of a path, longest first. -/
def extensionCandidates (p : Path) : List String :=
  match p.fileName? with
  | some name => nameExtensions name
  | none => []

/-- What stands before an ending of a text. -/
def dropEnd? (text ending : List Char) : Option (List Char) :=
  if ending.isSuffixOf text then some (text.take (text.length - ending.length)) else none

/-- The part of a file name before a dot and the given extension. -/
def baseName? (name extension : String) : Option String :=
  (dropEnd? name.toList ('.' :: extension.toList)).map String.ofList

/-- The path with one extension replaced by another, or dropped for an empty
one. A path without that extension stays as it is. -/
def replaceExtension (p : Path) (old new : String) : Path :=
  match p.fileName?.bind (baseName? · old) with
  | some base => p.withFileName (if new.isEmpty then base else base ++ "." ++ new)
  | none => p

/-- An extension without the dots it may start with. -/
def normalizeExtension (extension : String) : String :=
  String.ofList (extension.toList.dropWhile (· == '.'))

end Filewise.Path
