import Filewise.Schema.Options
import Filewise.Target

/-!
# Transformers

A transformer turns the text of a file into another text, or refuses it with a
reason. It is made anew for each place in a chain, from the options for that
place, and it may refuse to be made. Besides, it declares which options it takes
and which extensions the files it has worked on get.

## Main definitions

* `Placement`: what a transformer is made from.
* `Transformer`, `Transformer.withExtensionRemap`, `Transformer.run`.
-/

namespace Filewise

/-- What a transformer is made from. -/
structure Placement where
  /-- The id of the target that is built. -/
  target : String
  options : Options
  config : Target

/-- A text to a text, or the reason why there is none. -/
abbrev Conversion := String → Except String String

/-- A transformer that can be used by its id. -/
structure Transformer where
  id : String
  description : String
  /-- The rules for its options; without any, it takes no options. -/
  schema : Option OptionSchema
  /-- The extensions that are replaced, without dots in front. -/
  extensionRemap : Dict String
  /-- The conversion for a place in a chain. -/
  make : Placement → Except String Conversion

namespace Transformer

/-- A transformer without description, options and replaced extensions. -/
def new (id : String) (make : Placement → Except String Conversion) : Transformer :=
  { id, description := "", schema := none, extensionRemap := [], make }

/-- Sets the description. -/
def withDescription (t : Transformer) (description : String) : Transformer :=
  { t with description }

/-- Sets the rules for the options. -/
def withSchema (t : Transformer) (schema : OptionSchema) : Transformer :=
  { t with schema := some schema }

/-- Replaces an extension by another; both may be written with dots in front. -/
def withExtensionRemap (t : Transformer) (old new : String) : Transformer :=
  { t with
    extensionRemap :=
      t.extensionRemap.insert (Path.normalizeExtension old) (Path.normalizeExtension new) }

/-- What an extension is replaced by. -/
def remap? (t : Transformer) (extension : String) : Option String :=
  t.extensionRemap.find? extension

/-- Makes the conversion for a placement and applies it to a text. -/
def run (t : Transformer) (placement : Placement) (content : String) : Except String String := do
  (← t.make placement) content

end Transformer

end Filewise
