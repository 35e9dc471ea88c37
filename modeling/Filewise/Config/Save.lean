import Filewise.Config
import Filewise.Toml.Printer

/-!
# Saving configurations

A configuration is saved as a TOML document with every setting in it, those that
have their default value too. Only a number of workers that is not configured is
left out.

## Main definitions

* `BuildConfig.save`: the document of a configuration.
-/

namespace Filewise.BuildConfig

/-- The settings of a configuration in the order in which they are saved. -/
def savedFields (c : BuildConfig) : List (String × Value) :=
  [("build", .object (c.concurrency.map fun n => ("concurrency", Value.integer n)).toList),
    ("targets", .array (c.targets.map Target.toValue))]

/-- The document of a configuration. -/
def save (c : BuildConfig) : Except Toml.Unwritable String := Toml.write c.savedFields

end Filewise.BuildConfig
