import Filewise.Path

/-!
# What can go wrong

Every failure is kept as its cause. The sentence that reports it is computed from
the cause, in one place for each kind of failure.

## Main definitions

* `SystemError`, `IOCause`: why the file system refused something.
* `RegistryError`: why a transformer could not be registered or found.
* `Violation`: an option that its rule refuses.
* `BuildError`: why a unit, a target or a build failed.
-/

namespace Filewise

/-- Why the file system refuses an operation. -/
inductive SystemError where
  | notFound
  | exists
  | notDirectory
  | isDirectory
  | nameTooLong
  | invalidArgument
  | notEmpty
  | busy
  /-- A path with a character that no path may have. -/
  | nulInPath
  deriving DecidableEq, Repr

/-- The sentence of the system, with its number. -/
def SystemError.message : SystemError → String
  | .notFound => "No such file or directory (os error 2)"
  | .busy => "Device or resource busy (os error 16)"
  | .exists => "File exists (os error 17)"
  | .notDirectory => "Not a directory (os error 20)"
  | .isDirectory => "Is a directory (os error 21)"
  | .invalidArgument => "Invalid argument (os error 22)"
  | .nameTooLong => "File name too long (os error 36)"
  | .notEmpty => "Directory not empty (os error 39)"
  | .nulInPath => "file name contained an unexpected NUL byte"

/-- Why an operation on a path fails. -/
inductive IOCause where
  | system (e : SystemError)
  | other (message : String)
  deriving DecidableEq, Repr

/-- The sentence of a cause. -/
def IOCause.message : IOCause → String
  | .system e => e.message
  | .other message => message

/-- Why a transformer is not registered or not found. -/
inductive RegistryError where
  | duplicate (id : String)
  /-- No transformer has the id; one with a similar id may be meant. -/
  | unknown (id : String) (suggestion : Option String)
  deriving DecidableEq, Repr

namespace RegistryError

/-- The id in question. -/
def id : RegistryError → String
  | .duplicate id | .unknown id _ => id

/-- The sentence of a registry error. -/
def message : RegistryError → String
  | .duplicate id => s!"Duplicate transformer id: {id}"
  | .unknown id none => s!"Unknown transformer id: {id}"
  | .unknown id (some suggestion) =>
    s!"Unknown transformer id: {id} (did you mean '{suggestion}'?)"

end RegistryError

/-- An option, or a part of it, that is refused. -/
structure Violation where
  /-- The name of the option, followed by a pointer to the part of its value. -/
  field : String
  message : String
  deriving DecidableEq, Repr

/-- A violation as a line of text. -/
def Violation.line (v : Violation) : String := v.field ++ ": " ++ v.message

/-- What kind of failure a build error is. -/
inductive ErrorKind where
  | duplicateTransformerId
  | unknownTransformerId
  | schemaValidation
  | contentTransform
  | outputCollision
  | io
  | config
  deriving DecidableEq, Repr

/-- The name of a kind of failure in reports. -/
def ErrorKind.name : ErrorKind → String
  | .duplicateTransformerId => "duplicate_transformer_id"
  | .unknownTransformerId => "unknown_transformer_id"
  | .schemaValidation => "schema_validation"
  | .contentTransform => "content_transform"
  | .outputCollision => "output_collision"
  | .io => "io"
  | .config => "config"

/-- Why a unit, a target or a whole build fails. -/
inductive BuildError where
  | registry (e : RegistryError)
  | schemaValidation (transformer : String) (violations : List Violation)
  | contentTransform (transformer : String) (reason : String)
  | outputCollision (path : Path) (sources : List Path)
  | io (path : Path) (cause : IOCause)
  | config (reason : String)
  deriving DecidableEq, Repr

namespace BuildError

/-- The kind of a build error. -/
def kind : BuildError → ErrorKind
  | .registry (.duplicate _) => .duplicateTransformerId
  | .registry (.unknown _ _) => .unknownTransformerId
  | .schemaValidation _ _ => .schemaValidation
  | .contentTransform _ _ => .contentTransform
  | .outputCollision _ _ => .outputCollision
  | .io _ _ => .io
  | .config _ => .config

/-- Whether the error is found by looking at the configuration and the plan alone. -/
def isValidation : BuildError → Bool
  | .registry (.unknown _ _) | .schemaValidation _ _ | .outputCollision _ _ => true
  | _ => false

/-- The transformer the error is about. -/
def transformer? : BuildError → Option String
  | .registry e => some e.id
  | .schemaValidation transformer _ | .contentTransform transformer _ => some transformer
  | _ => none

/-- The sentence of a build error. -/
def message : BuildError → String
  | .registry e => e.message
  | .schemaValidation transformer violations =>
    s!"Invalid options for transformer {transformer}: " ++
      String.intercalate "; " (violations.map Violation.line)
  | .contentTransform transformer reason => s!"Transformer {transformer} failed: {reason}"
  | .outputCollision path sources =>
    s!"Output collision: {path.text} is produced by " ++
      String.intercalate ", " (sources.map Path.text)
  | .io path cause => s!"IO error at {path.text}: {cause.message}"
  | .config reason => s!"Configuration error: {reason}"

end BuildError

end Filewise
