/-!
# File trees

A file tree says what stands at a location: a directory, a file with its content,
or nothing. A location is the list of names that lead to it from the root, which
is always a directory. Links do not exist, so each location stands for itself.

## Main definitions

* `Location`, `Entry`, `Tree`.
* `Tree.find?`, `Tree.put`, `Tree.erase`, `Tree.changes`.

## Main results

* `Tree.find?_put`: what stands where after a change.
-/

namespace Filewise

/-- The names that lead from the root to a place. -/
abbrev Location := List String

/-- Contents of files are compared byte by byte. -/
instance decidableEqContent : DecidableEq ByteArray := fun a b =>
  decidable_of_iff (a.data = b.data) ByteArray.ext_iff.symm

/-- What stands at a location. -/
inductive Entry where
  | directory
  | file (content : ByteArray)
  deriving DecidableEq

/-- A file tree, seen from a directory in it. -/
structure Tree where
  entries : List (Location × Entry)
  workingDirectory : Location

namespace Tree

/-- The tree of the root alone. -/
def empty : Tree := ⟨[], []⟩

/-- The first entry for a location in a list of entries. -/
def lookup (location : Location) : List (Location × Entry) → Option Entry
  | [] => none
  | (l, e) :: rest => if l = location then some e else lookup location rest

/-- What stands at a location. -/
def find? (t : Tree) (location : Location) : Option Entry :=
  if location = [] then some .directory else lookup location t.entries

/-- A list of entries with those for a location left out. -/
def without (location : Location) (entries : List (Location × Entry)) : List (Location × Entry) :=
  entries.filter fun (l, _) => l ≠ location

/-- Puts something at a location, in place of what stood there. -/
def put (t : Tree) (location : Location) (e : Entry) : Tree :=
  { t with entries := (location, e) :: without location t.entries }

/-- Removes what stands at a location. -/
def erase (t : Tree) (location : Location) : Tree :=
  { t with entries := without location t.entries }

/-- Whether a directory stands at a location. -/
def hasDirectory (t : Tree) (location : Location) : Bool := t.find? location == some .directory

/-- What follows the location of a directory in a location inside it. -/
def relativeTo? : Location → Location → Option Location
  | [], l => some l
  | _ :: _, [] => none
  | a :: directory, b :: l => if a = b then relativeTo? directory l else none

/-- What stands in a tree and not in an earlier one, directories before what is in
them. -/
def changes (before after : Tree) : List (Location × Entry) :=
  (after.entries.filter fun (l, e) => before.find? l != some e).mergeSort
    fun a b => a.1.length ≤ b.1.length

theorem lookup_without_of_ne {location location' : Location} (h : location ≠ location')
    (entries : List (Location × Entry)) :
    lookup location' (without location entries) = lookup location' entries := by
  induction entries with
  | nil => rfl
  | cons entry rest ih =>
    obtain ⟨l, e⟩ := entry
    by_cases hl : l = location
    · have : l ≠ location' := fun h' => h (hl.symm.trans h')
      rw [lookup, if_neg this]
      simpa [without, hl] using ih
    · have hw : without location ((l, e) :: rest) = (l, e) :: without location rest := by
        simp [without, hl]
      rw [hw, lookup, lookup, ih]

@[simp] theorem find?_nil (t : Tree) : t.find? [] = some .directory := rfl

/-- After something was put at a location it stands there, and everything else is
as before. -/
theorem find?_put (t : Tree) {location : Location} (h : location ≠ []) (e : Entry)
    (location' : Location) :
    (t.put location e).find? location' = if location' = location then some e
      else t.find? location' := by
  by_cases h' : location' = location
  · subst h'
    simp [find?, put, lookup, h]
  · have hne : location ≠ location' := fun h'' => h' h''.symm
    simp [find?, put, lookup, h', hne, lookup_without_of_ne hne]

end Tree

end Filewise
