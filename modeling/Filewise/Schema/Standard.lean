import Filewise.Schema.Compiler
import Filewise.Schema.Draft

/-!
# The standard compiler of schemas

A schema that the schema of schemas refuses is turned down with the first reason.
Any other one is made into a check that goes through its keywords.

## Main definitions

* `Schema.standardCompiler`: the compiler that programs run with.
-/

namespace Filewise.Schema

/-- The compiler that programs run with. -/
instance standardCompiler : Compiler where
  compile schema :=
    match fault? schema with
    | some fault => .error fault.message
    | none => .ok fun value => (failures schema value).map fun f => ⟨f.place, f.message⟩

end Filewise.Schema
