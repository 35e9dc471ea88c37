import Filewise.Number.Layout
import Filewise.Toml.Document
import Filewise.Toml.Quoted

/-!
# Writing TOML documents

A table is written with the values that fit on lines first, and then the tables and
lists of tables inside, each below a header. A list counts as a list of tables if it
has items and all of them are tables; tables inside other lists stand on lines. A
table that holds nothing but tables needs no header of its own.

## Main definitions

* `Toml.Unwritable`: why a value has no form in TOML.
* `Toml.lineChars`: a value in a line.
* `Toml.linesOf`: the lines of a table.
* `Toml.write`: a document.
-/

namespace Filewise.Toml

/-! ### What cannot be written -/

/-- Why a value has no form in TOML. -/
inductive Unwritable where
  /-- There is no way to write nothing. -/
  | nothing
  /-- An integer that does not fit into 64 bits with a sign. -/
  | tooLarge
  deriving DecidableEq, Repr

/-- The sentence of a refusal to write. -/
def Unwritable.message : Unwritable → String
  | .nothing => "unsupported unit type"
  | .tooLarge => "out-of-range value for u64 type"

mutual

/-- The first thing in a value that cannot be written. -/
def unwritable? : Value → Option Unwritable
  | .null => some .nothing
  | .integer n => if n < Word.signedBound then none else some .tooLarge
  | .array items => unwritableItem? items
  | .object fields => unwritableField? fields
  | _ => none

/-- The first thing in values that cannot be written. -/
def unwritableItem? : List Value → Option Unwritable
  | [] => none
  | v :: rest => (unwritable? v).or (unwritableItem? rest)

/-- The first thing in fields that cannot be written. -/
def unwritableField? : List (String × Value) → Option Unwritable
  | [] => none
  | (_, v) :: rest => (unwritable? v).or (unwritableField? rest)

end

/-! ### Values in lines -/

mutual

/-- A value in a line. A list of several items takes a line for each of them. -/
def lineChars : Value → List Char
  | .null => []
  | .bool b => (if b then "true" else "false").toList
  | .integer n => (toString n).toList
  | .float x => (FloatLayout.toml.write x).toList
  | .text s => quotedChars s
  | .array [] => ['[', ']']
  | .array [v] => '[' :: lineChars v ++ [']']
  | .array (v :: w :: rest) => '[' :: itemLines (v :: w :: rest) ++ ['\n', ']']
  | .object [] => ['\x7b', '\x7d']
  | .object (field :: rest) => '\x7b' :: fieldChars (field :: rest) ++ [' ', '\x7d']

/-- Items on lines of their own. -/
def itemLines : List Value → List Char
  | [] => []
  | v :: rest => "\n    ".toList ++ lineChars v ++ ',' :: itemLines rest

/-- Fields in a line, separated by commas. -/
def fieldChars : List (String × Value) → List Char
  | [] => []
  | (name, v) :: rest =>
    ' ' :: keyChars name ++ " = ".toList ++ lineChars v ++
      (if rest.isEmpty then [] else [',']) ++ fieldChars rest

end

/-! ### Tables below headers -/

/-- Whether a value is a table. -/
def isTable : Value → Bool
  | .object _ => true
  | _ => false

/-- Whether a value is written below headers. -/
def hasHeaders : Value → Bool
  | .object _ => true
  | .array items => !items.isEmpty && items.all isTable
  | _ => false

/-- The assignments of a table: its fields that are written in lines. -/
def assignmentsOf (fields : List (String × Value)) : List Line :=
  (fields.filter fun (_, v) => !hasHeaders v).map fun (name, v) => .assignment ⟨[], name⟩ v

/-- The header of a table that stands in a document by itself. It may be left out if
there are tables inside and nothing is assigned. -/
def headerOf (key : Key) (fields : List (String × Value)) : List Line :=
  if !fields.isEmpty && (assignmentsOf fields).isEmpty then [] else [.header false key]

mutual

/-- The lines of the tables in a value that a key leads to. -/
def linesBelow (key : Key) : Value → List Line
  | .object fields =>
    headerOf key fields ++ assignmentsOf fields ++ linesOfTables (key.tables ++ [key.name]) fields
  | .array items => if hasHeaders (.array items) then linesOfItems key items else []
  | _ => []

/-- The lines of the tables in fields of a table. -/
def linesOfTables (tables : List String) : List (String × Value) → List Line
  | [] => []
  | (name, v) :: rest => linesBelow ⟨tables, name⟩ v ++ linesOfTables tables rest

/-- The lines of the tables in a list, each below a header. -/
def linesOfItems (key : Key) : List Value → List Line
  | [] => []
  | .object fields :: rest =>
    .header true key :: assignmentsOf fields ++
      linesOfTables (key.tables ++ [key.name]) fields ++ linesOfItems key rest
  | _ :: rest => linesOfItems key rest

end

/-- The lines of a document. -/
def linesOf (fields : List (String × Value)) : List Line :=
  assignmentsOf fields ++ linesOfTables [] fields

/-! ### Documents -/

/-- The parts of a key, separated by points. -/
def Key.chars (key : Key) : List Char :=
  key.tables.flatMap (fun table => keyChars table ++ ['.']) ++ keyChars key.name

/-- A line with its end. -/
def Line.chars : Line → List Char
  | .header false key => '[' :: key.chars ++ [']', '\n']
  | .header true key => '[' :: '[' :: key.chars ++ [']', ']', '\n']
  | .assignment key v => key.chars ++ " = ".toList ++ lineChars v ++ ['\n']

/-- Whether a line is a header. -/
def Line.isHeader : Line → Bool
  | .header _ _ => true
  | .assignment _ _ => false

/-- Lines with an empty one before each header. -/
def spacedChars (lines : List Line) : List Char :=
  lines.flatMap fun line => (if line.isHeader then ['\n'] else []) ++ line.chars

/-- The text of lines. A header in the first line has no empty one before it. -/
def linesText : List Line → String
  | [] => ""
  | line :: rest => String.ofList (line.chars ++ spacedChars rest)

/-- The document of a table, in the order of its fields. -/
def write (fields : List (String × Value)) : Except Unwritable String :=
  match unwritableField? fields with
  | some reason => .error reason
  | none => .ok (linesText (linesOf fields))

end Filewise.Toml
