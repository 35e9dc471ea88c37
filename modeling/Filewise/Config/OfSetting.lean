import Filewise.Config.Setting

/-!
# Configurations from settings

Settings are read more freely than values: a text may be given as a number or a
truth value, and a number of workers as a text, a truth value or a fraction. What
still does not fit is reported with the key of the setting and where it comes from.

## Main definitions

* `SettingError`, with `SettingError.message`.
* `SettingKey`: the key of a setting in messages.
* `BuildConfig.ofSetting`: the configuration that settings describe.
-/

namespace Filewise

/-- Why settings are not a configuration. -/
inductive SettingError where
  /-- A setting that cannot be converted. -/
  | conversion (found expected key : String) (origin : Option String)
  /-- A setting of the wrong shape. -/
  | shape (m : Mismatch)
  deriving DecidableEq, Repr

/-- The sentence of a setting error. -/
def SettingError.message : SettingError → String
  | .conversion found expected key origin =>
    let place := match origin with
      | some origin => " in " ++ origin
      | none => ""
    s!"invalid type: {found}, expected {expected} for key \x60{key}\x60" ++ place
  | .shape m => m.message

/-- The key of a setting. After the number of an item no dot follows. -/
structure SettingKey where
  text : String
  afterItem : Bool

namespace SettingKey

/-- The key of all settings together. -/
def top : SettingKey := ⟨"", true⟩

/-- The key of a field. -/
def field (k : SettingKey) (name : String) : SettingKey :=
  ⟨k.text ++ (if k.afterItem then "" else ".") ++ name, false⟩

/-- The key of an item. -/
def item (k : SettingKey) (index : Nat) : SettingKey :=
  ⟨k.text ++ "[" ++ toString index ++ "]", true⟩

end SettingKey

namespace Setting

/-- Floating-point numbers in messages about shapes. -/
def shapeFloat : FloatLayout := { FloatLayout.plain with integralMark := ".0" }

/-- What a setting is, for a message. -/
def found : Setting → Found
  | .scalar _ .null => .unit
  | .scalar _ (.float x) => .float (shapeFloat.write x)
  | .scalar _ v => Decode.found v
  | .list _ _ => .sequence
  | .table _ _ => .map

/-- Where a setting comes from. -/
def origin : Setting → Option String
  | .scalar origin _ | .list origin _ | .table origin _ => origin

end Setting

/-- A reader of settings, given the key. -/
abbrev SettingReader (α : Type) := SettingKey → Setting → Except SettingError α

namespace SettingReader

/-- A setting of the wrong shape. -/
def misshapen {α : Type} (what : String) (s : Setting) : Except SettingError α :=
  .error (.shape (.invalidType s.found what))

/-- A setting that cannot be converted. -/
def unconvertible {α : Type} (what : String) (k : SettingKey) (s : Setting) :
    Except SettingError α :=
  .error (.conversion s.found.describe what k.text s.origin)

/-- A text; numbers and truth values are written as texts. -/
def text : SettingReader String := fun k s =>
  match s with
  | .scalar _ (.text t) => .ok t
  | .scalar _ (.bool b) => .ok (if b then "true" else "false")
  | .scalar _ (.integer n) => .ok (toString n)
  | .scalar _ (.float x) => .ok (FloatLayout.plain.write x)
  | s => unconvertible "a string" k s

/-- A path. -/
def path : SettingReader Path := fun k s => Path.mk <$> text k s

/-- The greatest number of things. -/
def greatestCount : Nat := Word.unsignedBound - 1

/-- The nearest natural number, with halves away from zero, within bounds. -/
def roundedCount (x : Double) : Nat :=
  if x.isNaN || x.isNegative then 0
  else if x.isFinite then min greatestCount (x.toRat + 1 / 2).floor.toNat
  else greatestCount

/-- The number that a text stands for: digits, perhaps after a plus sign, or a word
for yes or no. -/
def countOfText? (t : String) : Option Nat :=
  let lower := Text.lowerCase t
  if lower = "true" ∨ lower = "on" ∨ lower = "yes" then some 1
  else if lower = "false" ∨ lower = "off" ∨ lower = "no" then some 0
  else Numeral.unsigned? t.toList

/-- A number of things. -/
def count : SettingReader Nat := fun k s =>
  match s with
  | .scalar origin (.integer n) =>
    if 0 ≤ n then .ok n.toNat
    else
      .error (.conversion s!"64-bit integer \x60{n}\x60" "an unsigned 64 bit or less integer"
        k.text origin)
  | .scalar _ (.bool b) => .ok (if b then 1 else 0)
  | .scalar _ (.float x) => .ok (roundedCount x)
  | .scalar _ (.text t) =>
    match countOfText? t with
    | some n => .ok n
    | none => unconvertible "an integer" k s
  | s => unconvertible "an integer" k s

/-- A list. -/
def list {α : Type} (item : SettingReader α) : SettingReader (List α) := fun k s =>
  match s with
  | .list _ items => items.zipIdx.mapM fun (s, i) => item (k.item i) s
  | s => misshapen "a sequence" s

/-- A dictionary. -/
def dict {α : Type} (item : SettingReader α) : SettingReader (Dict α) := fun k s =>
  match s with
  | .table _ fields => do
    let entries ← fields.mapM fun (name, s) => do return (name, ← item (k.field name) s)
    return Dict.ofList entries
  | s => misshapen "a map" s

/-- Options by name. -/
def options : SettingReader Options := dict fun _ s => .ok s.toValue

/-- Reads a record field by field. A table gives the fields by name, and a list by
position; whatever else they hold is passed over. -/
def record {σ : Type} (type : String) (names : List String) (start : σ)
    (set : σ → String → SettingKey → Setting → Except SettingError σ) :
    SettingReader σ := fun k s =>
  match s with
  | .table _ fields =>
    fields.foldlM (fun d (name, s) =>
      if names.contains name then set d name (k.field name) s else .ok d) start
  | .list _ items =>
    (names.zip items).zipIdx.foldlM (fun d ((name, s), i) => set d name (k.item i) s) start
  | s => misshapen s!"struct {type}" s

/-- A field that must be given. -/
def required {α : Type} (type : String) (names : List String) (s : Setting) (name : String)
    (field : Option α) : Except SettingError α :=
  match field, s with
  | some a, _ => .ok a
  | none, .list _ _ =>
    .error <| .shape <|
      .invalidLength (names.idxOf name) s!"struct {type} with {names.length} elements"
  | none, _ => .error (.shape (.missingField name))

/-- An entry of a chain, which is read without conversions. -/
def chainEntry : SettingReader ChainEntry := fun _ s =>
  match Decode.chainEntry s.toValue with
  | .ok entry => .ok entry
  | .error m => .error (.shape m)

/-- Reads one field of a target. -/
def setTargetField (d : Decode.TargetDraft) (name : String) (k : SettingKey) (s : Setting) :
    Except SettingError Decode.TargetDraft := do
  match name with
  | "id" => return { d with id := ← text k s }
  | "source_root" => return { d with sourceRoot := ← path k s }
  | "output_root" => return { d with outputRoot := ← path k s }
  | "include" => return { d with includes := ← list text k s }
  | "exclude" => return { d with excludes := ← list text k s }
  | "chains" => return { d with chains := ← dict (list chainEntry) k s }
  | "default_chain" => return { d with defaultChain := ← list chainEntry k s }
  | "transformers" => return { d with transformers := ← dict options k s }
  | _ => return d

/-- A target. -/
def target : SettingReader Target := fun k s => do
  let type := "BundlessConfig"
  let names := Decode.targetFields
  let d ← record type names ({} : Decode.TargetDraft) setTargetField k s
  let id ← required type names s "id" d.id
  let outputRoot ← required type names s "output_root" d.outputRoot
  return d.complete id outputRoot

/-- The settings of a build: the number of workers, which may be left out. -/
def settings : SettingReader (Option Nat) :=
  record "BuildSettings" ["concurrency"] none fun _ _ k s =>
    match s with
    -- nothing at all counts as left out
    | .scalar _ .null => .ok none
    | s => some <$> count k s

end SettingReader

/-- The configuration that settings describe, whether or not it is accepted. -/
def BuildConfig.ofSetting (s : Setting) : Except SettingError BuildConfig :=
  SettingReader.record "BuildConfig" ["build", "targets"] (BuildConfig.mk none [])
    (fun c name k s => do
      match name with
      | "build" => return { c with concurrency := ← SettingReader.settings k s }
      | _ => return { c with targets := ← SettingReader.list SettingReader.target k s }) .top s

/-- Why a configuration cannot be used. -/
inductive ConfigError where
  | notToml
  | setting (e : SettingError)
  | fault (f : ConfigFault)
  deriving DecidableEq, Repr

/-- The sentence of a configuration error. -/
def ConfigError.message : ConfigError → String
  | .notToml => "TOML parse error"
  | .setting e => e.message
  | .fault f => f.message

namespace BuildConfig

/-- The configuration that settings describe, if it is accepted. -/
def accepted (s : Setting) : Except ConfigError BuildConfig :=
  match ofSetting s with
  | .error e => .error (.setting e)
  | .ok c =>
    match c.fault? with
    | some f => .error (.fault f)
    | none => .ok c

end BuildConfig

end Filewise
