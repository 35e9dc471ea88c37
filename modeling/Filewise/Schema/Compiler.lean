import Filewise.Value

/-!
# Compilers of schemas

What a schema refuses is left to a compiler of schemas. It turns a schema down
with a reason, or makes a check of values from it, which finds what is wrong with
a value and where. Options are validated and plans are made in the same way with
any compiler, so the compiler is an instance that all of them take;
`Schema.standardCompiler` is the one that programs run with.

## Main definitions

* `Schema.Finding`: something that is wrong with a part of a value.
* `Schema.Compiler`: a compiler of schemas.
* `Schema.pointer`: a place in a value as a text.
-/

namespace Filewise.Schema

/-- Something that is wrong with a part of a value, and the way to that part. -/
structure Finding where
  /-- Names of fields and numbers of items, from the outside in. -/
  place : List String
  message : String

/-- A compiler of schemas. -/
class Compiler where
  /-- Everything that a schema refuses in a value, or why it cannot be used as a schema. -/
  compile : Value → Except String (Value → List Finding)

/-- A name in a pointer. -/
def escapeName (name : String) : String :=
  String.ofList <| name.toList.flatMap fun c =>
    if c = '~' then ['~', '0'] else if c = '/' then ['~', '1'] else [c]

/-- A place as a pointer into a value. -/
def pointer (place : List String) : String :=
  String.join (place.map fun name => "/" ++ escapeName name)

end Filewise.Schema
