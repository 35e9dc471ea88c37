import Filewise.Error
import Filewise.Schema.Compiler
import Filewise.Schema.Draft
import Filewise.Value.Decode

/-!
# Rules of options

A rule says which values an option may have, by a schema, and whether the option
has to be there. The default of an option is a keyword of its schema.

## Main definitions

* `OptionRule`, and functions that build one.
* `OptionRule.check`: what a rule refuses in a value.
* `OptionRule.ofValue`: the rule a value describes.
-/

namespace Filewise

/-- What an option has to be. -/
structure OptionRule where
  schema : Value
  isRequired : Bool
  description : Option String

namespace OptionRule

/-- The rule for an option that may be left out. -/
def new (schema : Value) : OptionRule := ⟨schema, false, none⟩

/-- Any text. -/
def string : OptionRule := new (Schema.Draft.ofType "string")

/-- Any truth value. -/
def boolean : OptionRule := new (Schema.Draft.ofType "boolean")

/-- An object whose fields are all texts. -/
def stringMap : OptionRule :=
  new (Schema.Draft.object
    [("type", .text "object"), ("additionalProperties", Schema.Draft.ofType "string")])

/-- The rule for an option that must be there. -/
def required (r : OptionRule) : OptionRule := { r with isRequired := true }

/-- Adds a default. A schema without keywords has none. -/
def withDefault (r : OptionRule) (value : Value) : OptionRule :=
  match r.schema with
  | .object keywords => { r with schema := .object (Dict.insert keywords "default" value) }
  | _ => r

/-- Adds a description. -/
def describe (r : OptionRule) (description : String) : OptionRule :=
  { r with description := some description }

/-- The value of an option that is left out. -/
def default? (r : OptionRule) : Option Value := r.schema.field? "default"

/-- What a rule refuses in the value of an option. A rule that cannot be used as a
schema refuses every value. -/
def check [Schema.Compiler] (r : OptionRule) (name : String) (value : Value) :
    List Violation :=
  match Schema.Compiler.compile r.schema with
  | .error fault => [⟨name, "invalid rule: " ++ fault⟩]
  | .ok findings =>
    (findings value).map fun f => ⟨name ++ Schema.pointer f.place, f.message⟩

/-- The rule a value describes. -/
def ofValue (v : Value) : Except Mismatch OptionRule := do
  let names := ["schema", "required", "description"]
  let draft : Option Value × Bool × Option String := (none, false, none)
  let (schema, isRequired, description) ← Decode.record "OptionRule" names draft
    (fun (schema, isRequired, description) name v => do
      match name, v with
      | "schema", v => return (some v, isRequired, description)
      | "required", v => return (schema, ← Decode.bool v, description)
      | _, .null => return (schema, isRequired, none)
      | _, v => return (schema, isRequired, some (← Decode.text v))) v
  return ⟨← Decode.required "OptionRule" names v "schema" schema, isRequired, description⟩

/-- The rule as a value. -/
def toValue (r : OptionRule) : Value :=
  .object <|
    [("schema", r.schema), ("required", .bool r.isRequired)] ++
    (r.description.map fun d => ("description", Value.text d)).toList

end OptionRule

end Filewise
