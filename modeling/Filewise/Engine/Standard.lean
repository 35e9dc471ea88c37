import Filewise.Registry
import Filewise.Script.Banner
import Filewise.Script.Comments
import Filewise.Script.Define

/-!
# Standard transformers

Three transformers for scripts are always there: one adds a banner, one replaces
names, and one removes comments.

## Main definitions

* `Engine.banner`, `Engine.define`, `Engine.stripComments`.
* `Registry.standard`: the registry of these, `Registry.withPlugins` with more.
-/

namespace Filewise

namespace Engine

/-- Options that a transformer cannot use. -/
def invalidOptions (id : String) (m : Mismatch) : String :=
  s!"invalid {id} options: {m.message}"

/-- Where a banner goes, by name. -/
def bannerPosition? : String → Option Script.BannerPosition
  | "top" => some .top
  | "bottom" => some .bottom
  | _ => none

/-- Where a banner goes: a name, or an object with the name as its only field. -/
def bannerPosition (v : Value) : Except Mismatch Script.BannerPosition :=
  let named (name : String) : Except Mismatch Script.BannerPosition :=
    match bannerPosition? name with
    | some position => .ok position
    | none => .error (.unknownVariant name ["top", "bottom"])
  match v with
  | .text name => named name
  | .object [(name, inner)] => do
    let position ← named name
    match inner with
    | .null => return position
    | v => Decode.expected "unit" v
  | .object _ => .error (.invalidValue .map "map with a single key")
  | v => Decode.expected "string or map" v

/-- The text of a banner and where it goes. -/
def bannerOptions (options : Options) : Except Mismatch (String × Script.BannerPosition) := do
  let names := ["text", "position"]
  let draft : Option String × Option Script.BannerPosition := (none, none)
  let v := Value.object options
  let (text, position) ← Decode.record "BannerOptions" names draft
    (fun (text, position) name v => do
      if name = "text" then return (some (← Decode.text v), position)
      else return (text, some (← bannerPosition v))) v
  return (← Decode.required "BannerOptions" names v "text" text,
    ← Decode.required "BannerOptions" names v "position" position)

/-- The transformer that adds a banner. -/
def banner : Transformer :=
  (Transformer.new "banner" fun placement =>
    match bannerOptions placement.options with
    | .error m => .error (invalidOptions "banner" m)
    | .ok (text, position) => .ok fun content => .ok (Script.addBanner text position content))
  |>.withDescription "Add a fixed text block at the top or bottom of each file"
  |>.withSchema (Dict.ofList
    [("text", OptionRule.string.required.describe "Banner text, inserted verbatim"),
      ("position", ((OptionRule.new
          (Schema.Draft.object [("enum", .array [.text "top", .text "bottom"])])).withDefault
        (.text "top")).describe "Where to place the banner")])

/-- The replacements of names. -/
def replacements (options : Options) : Except Mismatch (Dict String) := do
  let v := Value.object options
  let names := ["replacements"]
  let found ← Decode.record "DefineOptions" names (none : Option (Dict String))
    (fun _ _ v => some <$> Decode.dict Decode.text v) v
  Decode.required "DefineOptions" names v "replacements" found

/-- The transformer that replaces names. -/
def define : Transformer :=
  (Transformer.new "define" fun placement =>
    match replacements placement.options with
    | .error m => .error (invalidOptions "define" m)
    | .ok names => .ok fun content => .ok (Script.replaceNames names content))
  |>.withDescription "Replace global identifiers with literal expressions"
  |>.withSchema (Dict.ofList
    [("replacements", OptionRule.stringMap.required.describe
      "Identifier (or dotted path) to replacement expression")])

/-- Whether comments with a license stay; they do unless the option says no. -/
def keepsLicenses (options : Options) : Bool :=
  ((options.find? "preserve_license").bind Value.bool?).getD true

/-- The transformer that removes comments. -/
def stripComments : Transformer :=
  (Transformer.new "strip-comments" fun placement =>
    let keep := keepsLicenses placement.options
    .ok fun content =>
      match Script.stripComments keep content with
      | .ok output => .ok output
      | .error unterminated => .error unterminated.message)
  |>.withDescription "Remove line and block comments"
  |>.withSchema (Dict.ofList
    [("preserve_license",
      (OptionRule.boolean.withDefault (.bool true)).describe "Keep /*! ... */ comments")])

/-- The standard transformers. -/
def standard : List Transformer := [banner, define, stripComments]

end Engine

namespace Registry

/-- The registry of the standard transformers. -/
def standard : Registry := ⟨Dict.ofList (Engine.standard.map fun t => (t.id, t))⟩

/-- The registry of the standard transformers and further ones. -/
def withPlugins (plugins : List Transformer) : Except RegistryError Registry :=
  standard.registerAll plugins

end Registry

end Filewise
