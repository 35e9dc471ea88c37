import Filewise.Chain
import Filewise.Transformer
import Filewise.Value.Printer

/-!
# Remembered validations

The same options of the same transformer come up for many files. What validating
them gives is remembered by the transformer and the JSON text of the options.

## Main definitions

* `ValidationCache`, `ValidationCache.validate`.
-/

namespace Filewise

/-- What validating options gives. -/
abbrev Validated := Except (List Violation) Options

/-- What is remembered for a transformer and the text of options. -/
structure RememberedValidation where
  transformer : String
  optionsText : String
  result : Validated

/-- Everything that is remembered. -/
structure ValidationCache where
  entries : List RememberedValidation

namespace ValidationCache

/-- Nothing is remembered. -/
def empty : ValidationCache := ⟨[]⟩

/-- What is remembered for a transformer and the text of options. -/
def find? (c : ValidationCache) (transformer optionsText : String) : Option Validated :=
  (c.entries.find? fun e => e.transformer == transformer && e.optionsText == optionsText).map
    RememberedValidation.result

/-- The valid options of a step, validated now or remembered from before. -/
def validate [Schema.Compiler] (c : ValidationCache) (t : Transformer) (step : ChainStep) :
    ValidationCache × Validated :=
  -- fields are in order, so equal options have equal texts
  let text := Value.compactOptions step.options
  match c.find? step.transformer text with
  | some result => (c, result)
  | none =>
    let result := validateOptions t.schema step.options
    (⟨⟨step.transformer, text, result⟩ :: c.entries⟩, result)

end ValidationCache

end Filewise
