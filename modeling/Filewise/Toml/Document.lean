import Filewise.Toml.Token

/-!
# TOML documents

A document is a table. Its lines assign values to keys, in the table that the last
header names; a header with doubled brackets adds a table to a list. No table may
be defined twice, and none that is written in one place gets fields in another.

## Main definitions

* `Toml.Node`: a table while the document is read.
* `Toml.read?`: the table that a document describes.
-/

namespace Filewise.Toml

/-- How a table came to be. -/
inductive TableKind where
  /-- By a header of its own. -/
  | defined
  /-- By the header of a table inside. -/
  | passed
  /-- By a dotted key. -/
  | dotted
  deriving DecidableEq, Repr

/-- A value, a table or a list of tables while a document is read. -/
inductive Node where
  | leaf (v : Value)
  | table (kind : TableKind) (fields : List (String × Node))
  | tables (items : List (List (String × Node)))

/-- The fields of a table. -/
abbrev Fields := List (String × Node)

/-- A field of a table. -/
def Fields.find? (fields : Fields) (name : String) : Option Node :=
  (List.find? (fun (k, _) => k == name) fields).map Prod.snd

/-- Sets a field of a table. -/
def Fields.set (fields : Fields) (name : String) (node : Node) : Fields :=
  if fields.any fun (k, _) => k == name then
    fields.map fun (k, old) => if k == name then (k, node) else (k, old)
  else fields ++ [(name, node)]

/-- A table with one more value, in the tables that a dotted key leads to. The
innermost one must have been made by dotted keys, and none of the others by a header. -/
def Fields.assign (name : String) (v : Value) (isDotted : Bool) :
    List String → Fields → Option Fields
  | [], fields =>
    if !isDotted || (fields.find? name).isSome then none else some (fields.set name (.leaf v))
  | table :: tables, fields =>
    match fields.find? table with
    | none => do return fields.set table (.table .dotted (← assign name v true tables []))
    -- a table with a header of its own is complete
    | some (.table .defined _) => none
    | some (.table kind inner) => do
      return fields.set table (.table kind (← assign name v (kind == .dotted) tables inner))
    | some (.tables items) =>
      match items.getLast? with
      | some last => do
        return fields.set table (.tables (items.dropLast ++ [← assign name v false tables last]))
      | none => none
    | some (.leaf _) => none

/-- Changes the table that the names of a header lead to. Tables that are missing
are made; of a list of tables the last one counts. -/
def Fields.within (change : Fields → Option Fields) : List String → Fields → Option Fields
  | [], fields => change fields
  | table :: tables, fields =>
    match fields.find? table with
    | none => do return fields.set table (.table .passed (← within change tables []))
    | some (.table kind inner) => do
      return fields.set table (.table kind (← within change tables inner))
    | some (.tables items) =>
      match items.getLast? with
      | some last => do
        return fields.set table (.tables (items.dropLast ++ [← within change tables last]))
      | none => none
    | some (.leaf _) => none

/-- A header with the assignments below it. -/
structure Section where
  /-- Adds a table to a list. -/
  isItem : Bool
  key : Key
  assignments : List (Key × Value)

/-- A table with more values. -/
def assignAll (fields : Fields) (assignments : List (Key × Value)) : Option Fields :=
  assignments.foldlM (fun fields (key, v) => fields.assign key.name v true key.tables) fields

/-- The table around a section with the table of the section in it. -/
def Section.addTo (s : Section) (fields : Fields) : Option Fields :=
  match s.isItem, fields.find? s.key.name with
  | false, none => do
    return fields.set s.key.name (.table .defined (← assignAll [] s.assignments))
  -- the header may come after those of the tables inside
  | false, some (.table .passed inner) => do
    return fields.set s.key.name (.table .defined (← assignAll inner s.assignments))
  | true, none => do return fields.set s.key.name (.tables [← assignAll [] s.assignments])
  | true, some (.tables items) => do
    return fields.set s.key.name (.tables (items ++ [← assignAll [] s.assignments]))
  | _, _ => none

/-! ### Reading -/

/-- What a line says. -/
inductive Line where
  | header (isItem : Bool) (key : Key)
  | assignment (key : Key) (v : Value)

/-- A header after its opening bracket. -/
def header? : List Char → Option (Line × List Char)
  | '[' :: rest => do
    match ← key? rest with
    | (key, ']' :: ']' :: rest) => return (.header true key, rest)
    | _ => none
  | rest => do
    match ← key? rest with
    | (key, ']' :: rest) => return (.header false key, rest)
    | _ => none

/-- The lines of a document that say something. The first argument bounds their
number. -/
def lines? : Nat → List Char → Option (List Line)
  | 0, _ => none
  | steps + 1, text => do
    match ← skipTrivia? text with
    | [] => return []
    | '[' :: rest =>
      let (line, rest) ← header? rest
      return line :: (← lines? steps (← finishLine? rest))
    | rest =>
      let ((key, v), rest) ← assignment? (value? deepest) rest
      return .assignment key v :: (← lines? steps (← finishLine? rest))

/-- The assignments before the first header, and the sections. -/
def sections : List Line → List (Key × Value) × List Section
  | [] => ([], [])
  | .assignment key v :: rest =>
    let (assignments, later) := sections rest
    ((key, v) :: assignments, later)
  | .header isItem key :: rest =>
    let (assignments, later) := sections rest
    ([], ⟨isItem, key, assignments⟩ :: later)

mutual

/-- The value of a node. -/
def Node.toValue : Node → Value
  | .leaf v => v
  | .table _ fields => .object (Dict.ofList (fieldValues fields))
  | .tables items => .array (itemValues items)

/-- The values of fields. -/
def fieldValues : List (String × Node) → List (String × Value)
  | [] => []
  | (name, node) :: rest => (name, node.toValue) :: fieldValues rest

/-- The values of tables. -/
def itemValues : List (List (String × Node)) → List Value
  | [] => []
  | fields :: rest => .object (Dict.ofList (fieldValues fields)) :: itemValues rest

end

/-- A text without the mark that files may begin with. -/
def withoutMark : List Char → List Char
  | '\uFEFF' :: rest => rest
  | text => text

/-- The fields of the table that a document describes. -/
def read? (text : String) : Option Options := do
  let chars := withoutMark text.toList
  let lines ← lines? (chars.length + 1) chars
  let (assignments, later) := sections lines
  -- assignments before the first header belong to the document itself
  let top ← assignAll [] assignments
  let fields ← later.foldlM (fun fields s => fields.within s.addTo s.key.tables) top
  return Dict.ofList (fieldValues fields)

end Filewise.Toml
