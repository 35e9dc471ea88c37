import Filewise.Config.Decode
import Filewise.Number.Numeral
import Filewise.Text.LowerCase

/-!
# Settings from several places

Settings are collected from files and from the environment, layer over layer. Each
value knows where it comes from. Names are compared without regard to case: they
are kept in lower case wherever layers are put on top of each other, which does not
reach into lists. A name at the top of a layer may be a path such as
`targets[0].id`, and then it stands for the place it leads to.

## Main definitions

* `Setting`: a value with its origin.
* `SettingPath`, `SettingPath.parse?`: the paths of settings.
* `Setting.overlay`: one more layer.
-/

namespace Filewise

/-- A value with the place it comes from. -/
inductive Setting where
  | scalar (origin : Option String) (v : Value)
  | list (origin : Option String) (items : List Setting)
  | table (origin : Option String) (fields : List (String × Setting))
  deriving Inhabited

/-- Where a setting is: a name, something inside, or an item of a list. -/
inductive SettingPath where
  | name (s : String)
  | field (of : SettingPath) (s : String)
  | item (of : SettingPath) (index : Int)
  deriving DecidableEq, Repr

namespace SettingPath

/-- Whether a character may stand in a name of a path. -/
def isNameChar (c : Char) : Bool := c.isAlphanum || c == ' ' || c == '_' || c == '-'

/-- An index between blanks. -/
def index? (text : List Char) : Option Int :=
  let inner := ((text.dropWhile (· == ' ')).reverse.dropWhile (· == ' ')).reverse
  let (negative, digits) := match inner with
    | '-' :: rest => (true, rest)
    | rest => (false, rest)
  let n? := (Numeral.natural? digits).filter (· < Word.signedBound)
  n?.map fun n => if negative then -(n : Int) else n

/-- The steps of a path after what has been read of it; the first argument bounds
their number. -/
def steps? : Nat → SettingPath → List Char → Option SettingPath
  | _, p, [] => some p
  | 0, _, _ :: _ => none
  | bound + 1, p, '.' :: rest =>
    let name := rest.takeWhile isNameChar
    if name.isEmpty then none
    else steps? bound (.field p (String.ofList name)) (rest.dropWhile isNameChar)
  | bound + 1, p, '[' :: rest =>
    match rest.dropWhile (· != ']') with
    | ']' :: after => do
      let i ← index? (rest.takeWhile (· != ']'))
      steps? bound (.item p i) after
    | _ => none
  | _ + 1, _, _ :: _ => none

/-- The path that a name at the top of a layer stands for. -/
def parse? (text : String) : Option SettingPath :=
  let chars := text.toList
  let name := chars.takeWhile isNameChar
  if name.isEmpty then none
  else steps? chars.length (.name (String.ofList name)) (chars.dropWhile isNameChar)

end SettingPath

namespace Setting

/-- A setting that is not there. -/
def missing : Setting := .scalar none .null

/-- The fields of a table; anything else has none. -/
def fieldsOf : Setting → List (String × Setting)
  | .table _ fields => fields
  | _ => []

/-- The items of a list; anything else has none. -/
def itemsOf : Setting → List Setting
  | .list _ items => items
  | _ => []

/-- The origin of a table; for anything else, that of a new one. -/
def tableOrigin : Setting → Option String
  | .table origin _ => origin
  | _ => none

/-- The origin of a list; for anything else, that of a new one. -/
def listOrigin : Setting → Option String
  | .list origin _ => origin
  | _ => none

mutual

/-- A setting over another one, if there is one. Tables are put together field by
field; everything else is replaced. -/
def layered (old : Option Setting) : Setting → Setting
  | .table _ fields =>
    match fields with
    -- nothing is put over, so what is there keeps its kind
    | [] => old.getD (.table none [])
    | field :: rest =>
      let base := old.getD (.table none [])
      .table base.tableOrigin (overlayFields base.fieldsOf (field :: rest))
  | new => new

/-- Fields over those of a table. -/
def overlayFields (old : List (String × Setting)) :
    List (String × Setting) → List (String × Setting)
  | [] => old
  | (name, new) :: rest =>
    let key := Text.lowerCase name
    overlayFields (Dict.insert old key (layered (Dict.find? old key) new)) rest

end

/-- The place of an item in a list of the given length, counted from the end if it
is negative. -/
def place (length : Nat) (index : Int) : Nat :=
  if 0 ≤ index then index.toNat else length - index.natAbs

/-- A list that is long enough for a place, with an item changed. -/
def changeItem (items : List Setting) (i : Nat) (change : Option Setting → Setting) :
    List Setting :=
  let filled := items ++ List.replicate (i + 1 - items.length) missing
  filled.modify i fun s => change (some s)

/-- Changes the setting that a path leads to. Whatever is in the way becomes the
table or the list that the path asks for. -/
def change (top : Setting) : SettingPath → (Option Setting → Setting) → Setting
  | .name s, f =>
    let key := Text.lowerCase s
    .table top.tableOrigin (Dict.insert top.fieldsOf key (f (Dict.find? top.fieldsOf key)))
  | .field p s, f =>
    let key := Text.lowerCase s
    top.change p fun old =>
      let table := old.getD missing
      .table table.tableOrigin (Dict.insert table.fieldsOf key (f (Dict.find? table.fieldsOf key)))
  | .item p index, f =>
    top.change p fun old =>
      let list := old.getD missing
      .list list.listOrigin (changeItem list.itemsOf (place list.itemsOf.length index) f)

/-- How a setting at the end of a path is set: an item of a list is replaced, and
everything else is put over what is there. -/
def setAt (top : Setting) (p : SettingPath) (new : Setting) : Setting :=
  match p with
  -- tables in lists are not put together
  | .item _ _ => top.change p fun _ => new
  | p => top.change p fun old => layered old new

/-- Settings with one more layer on top. -/
def overlay (top : Setting) (layer : List (String × Setting)) : Setting :=
  layer.foldl (fun top (name, new) =>
    top.setAt ((SettingPath.parse? name).getD (.name name)) new) top

mutual

/-- The setting for a value that comes from a place. Integers have 64 bits and a sign;
one that does not fit is taken as a floating-point number. -/
def ofValue (origin : Option String) : Value → Setting
  | .array items => .list origin (ofItems origin items)
  | .object fields => .table origin (ofFields origin fields)
  | .integer n =>
    .scalar origin (if n < Word.signedBound then .integer n else .float (Double.ofInt n))
  | v => .scalar origin v

/-- The settings for values. -/
def ofItems (origin : Option String) : List Value → List Setting
  | [] => []
  | v :: rest => ofValue origin v :: ofItems origin rest

/-- The settings for fields. -/
def ofFields (origin : Option String) : List (String × Value) → List (String × Setting)
  | [] => []
  | (name, v) :: rest => (name, ofValue origin v) :: ofFields origin rest

end

mutual

/-- The value of a setting without its origin. What is not a finite number is kept
as nothing. -/
def toValue : Setting → Value
  | .scalar _ (.float x) => if x.isFinite then .float x else .null
  | .scalar _ v => v
  | .list _ items => .array (itemValues items)
  | .table _ fields => .object (Dict.ofList (fieldValues fields))

/-- The values of settings. -/
def itemValues : List Setting → List Value
  | [] => []
  | s :: rest => s.toValue :: itemValues rest

/-- The values of fields. -/
def fieldValues : List (String × Setting) → List (String × Value)
  | [] => []
  | (name, s) :: rest => (name, s.toValue) :: fieldValues rest

end

end Setting

end Filewise
