/-!
# Paths

A path is a text. What it means is its list of components: doubled and trailing
slashes and dots in between stand for nothing, while a leading dot and every
double dot are kept. Comparing, ordering and looking paths up goes by the
components; showing a path shows its text.

## Main definitions

* `Path.components`: the components of a path.
* `Path.join`, `Path.parent?`, `Path.fileName?`, `Path.withFileName`.
* `Path.startsWith`, `Path.same`, `Path.compare`.
-/

namespace Filewise

/-- A step of a path. -/
inductive Component where
  /-- The slash at the start of an absolute path. -/
  | root
  /-- A dot at the start of a relative path. -/
  | here
  /-- A double dot. -/
  | up
  | name (s : String)
  deriving DecidableEq, Repr

namespace Component

/-- The text of a component. -/
def text : Component → String
  | .root => "/"
  | .here => "."
  | .up => ".."
  | .name s => s

/-- The kinds of components in ascending order. -/
def rank : Component → Nat
  | .root => 0
  | .here => 1
  | .up => 2
  | .name _ => 3

/-- Components are ordered by their kind, and names by their text. -/
def compare (a b : Component) : Ordering :=
  match a, b with
  | .name s, .name t => compareOfLessAndEq s t
  | _, _ => Ord.compare a.rank b.rank

/-- The order of component lists: a list comes before its extensions. -/
def compareLists : List Component → List Component → Ordering
  | [], [] => .eq
  | [], _ :: _ => .lt
  | _ :: _, [] => .gt
  | a :: as, b :: bs => (compare a b).then (compareLists as bs)

end Component

/-- A path as it was written. -/
structure Path where
  text : String
  deriving DecidableEq, Repr, Inhabited

namespace Path

/-- The texts between the slashes of a path. -/
def segments (p : Path) : List (List Char) := p.text.toList.splitOn '/'

/-- Whether a path starts at the root. -/
def isAbsolute (p : Path) : Bool := p.text.toList.head? == some '/'

/-- What a text between slashes stands for after the start of a path. -/
def innerComponent? (segment : List Char) : Option Component :=
  if segment = [] ∨ segment = ['.'] then none
  else if segment = ['.', '.'] then some .up
  else some (.name (String.ofList segment))

/-- What the text before the first slash stands for. -/
def leadingComponent? (segment : List Char) (absolute : Bool) : Option Component :=
  if segment = [] then (if absolute then some .root else none)
  else if segment = ['.'] then some .here
  else innerComponent? segment

/-- The components of a path. -/
def components (p : Path) : List Component :=
  match p.segments with
  | [] => []
  | first :: rest =>
    (leadingComponent? first p.isAbsolute).toList ++ rest.filterMap innerComponent?

/-- Whether two paths have the same components. -/
def same (p q : Path) : Bool := p.components == q.components

/-- The order of paths by their components. -/
def compare (p q : Path) : Ordering := Component.compareLists p.components q.components

/-- Whether a path lies at or under another one. -/
def startsWith (p q : Path) : Bool := q.components.isPrefixOf p.components

/-- A path seen from another one; an absolute path is seen as it is. -/
def join (base p : Path) : Path :=
  if p.isAbsolute then p
  else if base.text.isEmpty || base.text.toList.getLast? == some '/' then ⟨base.text ++ p.text⟩
  else ⟨base.text ++ "/" ++ p.text⟩

/-- The path that names one after the other. -/
def ofNames (names : List String) : Path := ⟨String.intercalate "/" names⟩

/-- Whether a text between slashes stands for nothing. -/
def isEmptySegment (segment : List Char) : Bool := segment = [] ∨ segment = ['.']

/-- The texts between slashes up to the last one that stands for something; the
first one always stays. -/
def dropTrailing (first : List Char) (rest : List (List Char)) : List (List Char) :=
  first :: (rest.reverse.dropWhile isEmptySegment).reverse

/-- The path that was written with the given texts between its slashes. -/
def ofSegments (segments : List (List Char)) : Path :=
  match segments with
  | [[]] => ⟨"/"⟩
  | _ => ⟨String.ofList (['/'].intercalate segments)⟩

/-- The path without its last component; the root and the empty path have none. -/
def parent? (p : Path) : Option Path :=
  match p.segments with
  | [] => none
  | first :: rest =>
    match dropTrailing first rest with
    | [] => none
    -- a single name lies in the empty path
    | [_] => if p.isAbsolute || first.isEmpty then none else some ⟨""⟩
    | first :: kept => some (ofSegments (dropTrailing first kept.dropLast))

/-- The name a path ends in. -/
def fileName? (p : Path) : Option String :=
  match p.components.getLast? with
  | some (.name s) => some s
  | _ => none

/-- The path with the name it ends in replaced. -/
def withFileName (p : Path) (name : String) : Path :=
  match p.fileName? with
  | some _ => ((p.parent?).getD p).join ⟨name⟩
  | none => p.join ⟨name⟩

end Path

end Filewise
