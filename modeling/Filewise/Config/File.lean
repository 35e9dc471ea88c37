import Filewise.Config.OfToml
import Filewise.Json.Document
import Filewise.Path.Extension
import Filewise.Path.Relative
import Filewise.Text.Utf8
import Filewise.Tree.Access

/-!
# Configuration files

A configuration file is named with or without its ending: if there is no file of
exactly the name, the endings of the known formats are tried behind it. The format
of a file follows from its ending.

## Main definitions

* `ConfigFormat`: the formats.
* `ConfigFile`, `ConfigFile.find`: the file that a name stands for.
* `ConfigFile.layer`: the settings in a file.
* `LoadError`: why no configuration is loaded.
-/

namespace Filewise

/-- A format in which configurations are written. -/
inductive ConfigFormat where
  | toml
  | json
  deriving DecidableEq, Repr

namespace ConfigFormat

/-- All formats. -/
def all : List ConfigFormat := [toml, json]

/-- The ending of file names. -/
def extension : ConfigFormat → String
  | toml => "toml"
  | json => "json"

/-- The format of the file that a path leads to. -/
def ofPath? (p : Path) : Option ConfigFormat := do
  let extension ← p.extensionCandidates.getLast?
  all.find? fun format => format.extension == extension

end ConfigFormat

/-- Why no configuration is loaded. -/
inductive LoadError where
  /-- There is no file of a name. -/
  | noFile (name : Path)
  /-- The ending of a file is not that of a format. -/
  | noFormat (file : Path)
  | notToml
  | notJson (fault : Json.Fault) (origin : String)
  /-- A file that holds something else than a table. -/
  | notTable (found : Value) (origin : String)
  /-- The settings of all files together. -/
  | settings (e : ConfigError)

namespace LoadError

/-- What was found in place of a table, for a message. -/
def foundText : Value → String
  | .integer n => s!"64-bit integer \x60{n}\x60"
  | .float x => "floating point \x60" ++ FloatLayout.plain.write x ++ "\x60"
  | v => (Setting.ofValue none v).found.describe

/-- The sentence of a load error. -/
def message : LoadError → String
  | .noFile name => s!"configuration file \"{name.text}\" not found"
  | .noFormat file =>
    s!"configuration file \"{file.text}\" is not of a registered file format"
  | .notToml => ConfigError.notToml.message
  | .notJson fault origin => s!"{fault.message} in {origin}"
  | .notTable found origin =>
    s!"invalid type: {foundText found}, expected a map in {origin} in {origin}"
  | .settings e => e.message

end LoadError

/-- A configuration file. -/
structure ConfigFile where
  /-- The file as it is named in messages. -/
  origin : String
  format : ConfigFormat
  content : ByteArray

namespace ConfigFile

/-- The path with the ending of a format behind its name. -/
def withExtension (p : Path) (format : ConfigFormat) : Path :=
  match p.fileName? with
  | some name => p.withFileName (name ++ "." ++ format.extension)
  | none => p

/-- The file of exactly the given path. -/
def read? (t : Tree) (p : Path) (format : ConfigFormat) : Option ConfigFile :=
  match t.read p with
  | .ok content => some ⟨(p.seenFrom t.workingPath).text, format, content⟩
  | .error _ => none

/-- The file that a name stands for. -/
def find (t : Tree) (name : Path) : Except LoadError ConfigFile :=
  let p := t.workingPath.join name
  match t.read p with
  | .ok content =>
    match ConfigFormat.ofPath? p with
    | some format => .ok ⟨(p.seenFrom t.workingPath).text, format, content⟩
    | none => .error (.noFormat p)
  | .error _ =>
    -- the name is tried as it stands first, then with an ending
    match ConfigFormat.all.findSome? fun format => read? t (withExtension p format) format with
    | some file => .ok file
    | none => .error (.noFile name)

/-- The text in a file, without the mark that files may begin with. -/
def text (f : ConfigFile) : String :=
  match (Utf8.decodeLossy f.content).toList with
  | '\uFEFF' :: rest => String.ofList rest
  | chars => String.ofList chars

/-- The settings in a file. -/
def layer (f : ConfigFile) : Except LoadError (List (String × Setting)) :=
  match f.format with
  | .toml =>
    match Toml.read? f.text with
    | some fields => .ok (Setting.ofFields (some f.origin) fields)
    | none => .error .notToml
  | .json =>
    match Value.ofJson f.text with
    | .ok (.object fields) => .ok (Setting.ofFields (some f.origin) fields)
    | .ok v => .error (.notTable v f.origin)
    | .error fault => .error (.notJson fault f.origin)

end ConfigFile

end Filewise
