import Filewise.Path
import Filewise.Value
import Filewise.Value.Mismatch

/-!
# Reading values as something else

A value is read as what it is meant to be without any conversion: a text has to
be a text, a number of things an integer that is not negative. A record is given
as an object or as an array of its fields in order. Fields of an object are read
in the order in which they stand, so the first wrong one is reported.

## Main definitions

* `Decode.text`, `Decode.bool`, `Decode.path`, `Decode.count`.
* `Decode.list`, `Decode.dict`, `Decode.record`.
-/

namespace Filewise.Decode

/-- What a value is, for a message. -/
def found : Value → Found
  | .null => .null
  | .bool b => .bool b
  | .integer n => .integer n
  | .float x => .float (FloatLayout.json.write x)
  | .text s => .text s
  | .array _ => .sequence
  | .object _ => .map

/-- A value that should have been something else. -/
def expected {α : Type} (what : String) (v : Value) : Except Mismatch α :=
  .error (.invalidType (found v) what)

/-- A text. -/
def text : Value → Except Mismatch String
  | .text s => .ok s
  | v => expected "a string" v

/-- A truth value. -/
def bool : Value → Except Mismatch Bool
  | .bool b => .ok b
  | v => expected "a boolean" v

/-- A path. -/
def path : Value → Except Mismatch Path
  | .text s => .ok ⟨s⟩
  | v => expected "path string" v

/-- A number of things. -/
def count : Value → Except Mismatch Nat
  | .integer n => if n < 0 then .error (.invalidValue (.integer n) "usize") else .ok n.toNat
  | v => expected "usize" v

/-- A list. -/
def list {α : Type} (item : Value → Except Mismatch α) : Value → Except Mismatch (List α)
  | .array items => items.mapM item
  | v => expected "a sequence" v

/-- A dictionary. -/
def dict {α : Type} (item : Value → Except Mismatch α) : Value → Except Mismatch (Dict α)
  | .object fields => do
    let entries ← fields.mapM fun (k, v) => do return (k, ← item v)
    return Dict.ofList entries
  | v => expected "a map" v

/-- Options by name. -/
def options : Value → Except Mismatch Options := dict .ok

/-- Reads a record field by field. An object gives the fields by name, and other
names are passed over; an array gives them by position and may stop early. -/
def record {σ : Type} (type : String) (names : List String) (start : σ)
    (set : σ → String → Value → Except Mismatch σ) : Value → Except Mismatch σ
  | .object fields => fields.foldlM (fun s (k, v) => if names.contains k then set s k v else .ok s)
      start
  | .array items => do
    let s ← (names.zip items).foldlM (fun s (k, v) => set s k v) start
    if names.length < items.length then
      throw (.invalidLength items.length "fewer elements in array")
    return s
  | v => expected s!"struct {type}" v

/-- A field that must be given; in an array it is missing at its position. -/
def required {α : Type} (type : String) (names : List String) (v : Value) (name : String)
    (field : Option α) : Except Mismatch α :=
  match field, v with
  | some a, _ => .ok a
  | none, .array _ =>
    .error (.invalidLength (names.idxOf name) s!"struct {type} with {names.length} elements")
  | none, _ => .error (.missingField name)

end Filewise.Decode
