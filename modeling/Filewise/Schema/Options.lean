import Filewise.Schema.Rule

/-!
# Validation of options

The options of a transformer are compared with the rules it declares. Nothing
stops at the first problem: options without a rule come first, then, in the order
of the rules, what each rule refuses. Options that are accepted get the defaults
of those that were left out.

## Main definitions

* `OptionSchema`: the rules of a transformer by option.
* `OptionSchema.validate`, `validateOptions`.
-/

namespace Filewise

/-- The rules of a transformer, in ascending order of the options. -/
abbrev OptionSchema := Dict OptionRule

namespace OptionSchema

/-- What one rule finds in options: an option it refuses, or one that is missing. -/
def ruleViolations [Schema.Compiler] (options : Options) (name : String) (rule : OptionRule) :
    List Violation :=
  match options.find? name with
  | some value => rule.check name value
  | none => if rule.isRequired then [⟨name, "required option is missing"⟩] else []

/-- The options that no rule is about. -/
def unknownOptions (schema : OptionSchema) (options : Options) : List Violation :=
  (options.keys.filter fun name => !schema.contains name).map fun name => ⟨name, "unknown option"⟩

/-- Everything that is wrong with options. -/
def violations [Schema.Compiler] (schema : OptionSchema) (options : Options) : List Violation :=
  schema.unknownOptions options ++
  schema.flatMap fun (name, rule) => ruleViolations options name rule

/-- The value of an option: the given one, or else the default. -/
def valueFor? (options : Options) (name : String) (rule : OptionRule) : Option Value :=
  (options.find? name).or rule.default?

/-- The options with a rule, completed by defaults. -/
def complete (schema : OptionSchema) (options : Options) : Options :=
  schema.filterMap fun (name, rule) => (valueFor? options name rule).map fun v => (name, v)

/-- The completed options, or everything that is wrong with them. -/
def validate [Schema.Compiler] (schema : OptionSchema) (options : Options) :
    Except (List Violation) Options :=
  match schema.violations options with
  | [] => .ok (schema.complete options)
  | violations => .error violations

/-- The rules a value describes, by option. -/
def ofValue (v : Value) : Except Mismatch OptionSchema := Decode.dict OptionRule.ofValue v

/-- The rules as a value. -/
def toValue (schema : OptionSchema) : Value :=
  .object (schema.map fun (name, rule) => (name, rule.toValue))

/-- The defaults that the rules declare. -/
def defaults (schema : OptionSchema) : Options :=
  schema.filterMap fun (name, rule) => rule.default?.map fun v => (name, v)

end OptionSchema

/-- Validates the options of a transformer, which may declare no rules; then it
accepts no options at all. -/
def validateOptions [Schema.Compiler] :
    Option OptionSchema → Options → Except (List Violation) Options
  | some schema, options => schema.validate options
  | none, [] => .ok []
  | none, options => .error <| options.keys.map fun name =>
      ⟨name, "transformer does not accept options"⟩

end Filewise
