import Filewise.Value.Printer

/-!
# Why a schema refuses a value

A keyword of a schema refuses a value for one reason. The reason is kept apart
from its sentence, which names the value that was refused.

## Main definitions

* `Schema.Refusal`: the reasons, and `Refusal.message` their sentences.
* `Schema.Failure`: a reason with the place where it was found.
-/

namespace Filewise.Schema

/-- Which of several schemas have to accept a value. -/
inductive Choice where
  | anyOf
  | oneOf
  deriving DecidableEq, Repr

/-- The keyword of a choice. -/
def Choice.keyword : Choice → String
  | .anyOf => "anyOf"
  | .oneOf => "oneOf"

/-- Why a value is refused. -/
inductive Refusal where
  | wrongType (types : List String)
  | notListed (values : List Value)
  | notConstant (value : Value)
  | belowMinimum (limit : Value)
  | aboveMaximum (limit : Value)
  | notAboveLimit (limit : Value)
  | notBelowLimit (limit : Value)
  | notMultiple (divisor : Double)
  | tooShort (least : Nat)
  | tooLong (most : Nat)
  | tooFewItems (least : Nat)
  | tooManyItems (most : Nat)
  | tooFewProperties (least : Nat)
  | tooManyProperties (most : Nat)
  | repeatedItems
  | nothingContained
  | missingProperty (name : String)
  | extraItems (items : List Value)
  | extraProperties (names : List String)
  | nothingAllowed
  | noneAccepts (choice : Choice)
  | severalAccept
  | excluded (schema : Value)
  | patternMismatch (pattern : String)
  | formatMismatch (format : String)
  | badReference (reference : String)
  deriving Inhabited

/-- A number of things, in the plural unless it is one. -/
def counted (n : Nat) (one many : String) : String := s!"{n} " ++ if n = 1 then one else many

/-- What was unexpected, with its verb. -/
def unexpected (things : List String) : String :=
  let verb := if things.length = 1 then "was" else "were"
  let list := String.intercalate ", " things
  s!"({list} {verb} unexpected)"

/-- The sentence of a refusal for the value that is refused. -/
def Refusal.message (value : Value) : Refusal → String
  | .wrongType types =>
    let quoted := String.intercalate ", " (types.map fun t => "\"" ++ t ++ "\"")
    let noun := if types.length = 1 then "type" else "types"
    s!"{value.compact} is not of {noun} {quoted}"
  | .notListed values => s!"{value.compact} is not one of {(Value.array values).compact}"
  | .notConstant constant => s!"{constant.compact} was expected"
  | .belowMinimum limit => s!"{value.compact} is less than the minimum of {limit.compact}"
  | .aboveMaximum limit => s!"{value.compact} is greater than the maximum of {limit.compact}"
  | .notAboveLimit limit =>
    s!"{value.compact} is less than or equal to the minimum of {limit.compact}"
  | .notBelowLimit limit =>
    s!"{value.compact} is greater than or equal to the maximum of {limit.compact}"
  | .notMultiple divisor =>
    s!"{value.compact} is not a multiple of {FloatLayout.plain.write divisor}"
  | .tooShort n => s!"{value.compact} is shorter than " ++ counted n "character" "characters"
  | .tooLong n => s!"{value.compact} is longer than " ++ counted n "character" "characters"
  | .tooFewItems n => s!"{value.compact} has less than " ++ counted n "item" "items"
  | .tooManyItems n => s!"{value.compact} has more than " ++ counted n "item" "items"
  | .tooFewProperties n => s!"{value.compact} has less than " ++ counted n "property" "properties"
  | .tooManyProperties n => s!"{value.compact} has more than " ++ counted n "property" "properties"
  | .repeatedItems => s!"{value.compact} has non-unique elements"
  | .nothingContained => s!"None of {value.compact} are valid under the given schema"
  | .missingProperty name => s!"{(Value.text name).compact} is a required property"
  | .extraItems items =>
    "Additional items are not allowed " ++ unexpected (items.map Value.compact)
  | .extraProperties names =>
    "Additional properties are not allowed " ++ unexpected (names.map fun n => "'" ++ n ++ "'")
  | .nothingAllowed => s!"False schema does not allow {value.compact}"
  | .noneAccepts choice =>
    s!"{value.compact} is not valid under any of the schemas listed in the " ++
      s!"'{choice.keyword}' keyword"
  | .severalAccept =>
    s!"{value.compact} is valid under more than one of the schemas listed in the 'oneOf' keyword"
  | .excluded schema => s!"{schema.compact} is not allowed for {value.compact}"
  | .patternMismatch pattern =>
    s!"{value.compact} does not match {(Value.text pattern).compact}"
  | .formatMismatch format => s!"{value.compact} is not a {(Value.text format).compact}"
  | .badReference reference => s!"Invalid reference: {reference}"

/-- A refusal, the value it is about and the way to that value. -/
structure Failure where
  /-- Names of fields and numbers of items, from the outside in. -/
  place : List String
  value : Value
  refusal : Refusal
  deriving Inhabited

/-- The sentence of a failure. -/
def Failure.message (f : Failure) : String := f.refusal.message f.value

end Filewise.Schema
