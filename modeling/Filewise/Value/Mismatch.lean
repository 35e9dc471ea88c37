import Filewise.Number.Layout
import Filewise.Text.Debug

/-!
# Values of the wrong shape

When a value cannot be read as what a configuration or an option needs, the
mismatch says what was found and what was expected.

## Main definitions

* `Found`: what was found.
* `Mismatch`: what is wrong, with `Mismatch.message`.
-/

namespace Filewise

/-- What was found in place of something else. -/
inductive Found where
  | null
  | unit
  | bool (b : Bool)
  | integer (n : Int)
  /-- A floating-point number by its text. -/
  | float (written : String)
  | text (s : String)
  | sequence
  | map
  deriving DecidableEq, Repr

/-- How a message names what was found. -/
def Found.describe : Found → String
  | .null => "null"
  | .unit => "unit value"
  | .bool true => "boolean `true`"
  | .bool false => "boolean `false`"
  | .integer n => s!"integer `{n}`"
  | .float written => s!"floating point `{written}`"
  | .text s => "string " ++ Text.debugQuote s
  | .sequence => "sequence"
  | .map => "map"

/-- Why a value has the wrong shape. -/
inductive Mismatch where
  | invalidType (found : Found) (expected : String)
  | invalidValue (found : Found) (expected : String)
  | invalidLength (length : Nat) (expected : String)
  | missingField (name : String)
  | unknownField (name : String) (known : List String)
  | unknownVariant (name : String) (known : List String)
  | noVariant (type : String)
  deriving DecidableEq, Repr

/-- Names in a list of alternatives. -/
def alternatives (names : List String) : String :=
  let quoted := names.map fun n => "`" ++ n ++ "`"
  match quoted with
  | [] => "there are no variants"
  | [a] => "expected " ++ a
  | [a, b] => s!"expected {a} or {b}"
  | many => "expected one of " ++ String.intercalate ", " many

/-- The sentence of a mismatch. -/
def Mismatch.message : Mismatch → String
  | .invalidType found expected => s!"invalid type: {found.describe}, expected {expected}"
  | .invalidValue found expected => s!"invalid value: {found.describe}, expected {expected}"
  | .invalidLength length expected => s!"invalid length {length}, expected {expected}"
  | .missingField name => s!"missing field `{name}`"
  | .unknownField name known => s!"unknown field `{name}`, {alternatives known}"
  | .unknownVariant name known => s!"unknown variant `{name}`, {alternatives known}"
  | .noVariant type => s!"data did not match any variant of untagged enum {type}"

end Filewise
