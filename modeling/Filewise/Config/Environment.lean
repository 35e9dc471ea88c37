import Filewise.Config.Setting

/-!
# Settings in the environment

A variable whose name begins with the name of the program and two underscores is a
setting; two underscores further on stand for the point between the parts of a path.
Its text is a truth value or a number if it reads as one.

## Main definitions

* `Environment`, `Environment.layer`: variables, and the settings in them.
* `Environment.configDirectory?`: where the user keeps configurations.
-/

namespace Filewise

/-- The name of the program, after which its files and variables are called. -/
def programName : String := "bundless"

/-- Variables with their texts. -/
abbrev Environment := Dict String

namespace Environment

/-- How the names of variables with settings begin, in lower case. -/
def settingPrefix : List Char := programName.toList ++ ['_', '_']

/-- A name with points in place of pairs of underscores. -/
def withPoints : List Char → List Char
  | '_' :: '_' :: rest => '.' :: withPoints rest
  | c :: rest => c :: withPoints rest
  | [] => []

/-- The path of the setting in a variable. -/
def settingName? (name : String) : Option String :=
  let lower := (Text.lowerCase name).toList
  if settingPrefix.isPrefixOf lower then
    some (String.ofList (withPoints (lower.drop settingPrefix.length)))
  else none

/-- What the text of a variable stands for. -/
def valueOf (text : String) : Value :=
  let lower := Text.lowerCase text
  if lower = "true" then .bool true
  else if lower = "false" then .bool false
  else
    match Numeral.signed? text.toList with
    | some n => .integer n
    | none =>
      match Numeral.double? text.toList with
      | some x => .float x
      | none => .text text

/-- Where settings in variables come from. -/
def origin : String := "the environment"

/-- The settings in variables. -/
def layer (env : Environment) : List (String × Setting) :=
  env.filterMap fun (name, text) =>
    (settingName? name).map fun key => (key, .ofValue (some origin) (valueOf text))

/-- The directory in which the user keeps configurations: the one that a variable names
by an absolute path, or else one in the home directory. There is none without a home
directory. -/
def configDirectory? (env : Environment) : Option Path := do
  let home ← (env.find? "HOME").filter (· ≠ "")
  match (env.find? "XDG_CONFIG_HOME").map Path.mk with
  | some named => return if named.isAbsolute then named else (Path.mk home).join ⟨".config"⟩
  | none => return (Path.mk home).join ⟨".config"⟩

end Environment

end Filewise
