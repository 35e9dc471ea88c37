import Filewise.Config.OfSetting
import Filewise.Toml.Document

/-!
# Configurations from TOML

A TOML document is a single layer of settings.

## Main definitions

* `BuildConfig.ofToml`: the configuration that a document describes.
-/

namespace Filewise.BuildConfig

/-- The configuration that a document describes, if it is accepted. -/
def ofToml (text : String) : Except ConfigError BuildConfig :=
  match Toml.read? text with
  | none => .error .notToml
  | some fields => accepted ((Setting.table none []).overlay (Setting.ofFields none fields))

end Filewise.BuildConfig
