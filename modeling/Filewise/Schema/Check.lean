import Filewise.Schema.Pattern
import Filewise.Schema.Refusal

/-!
# Checking values against schemas

A schema is itself a value: a truth value, or an object of keywords. Each keyword
looks at the value on its own and reports what it refuses; the reports stand in
ascending order of the keywords. Keywords that speak of another kind of value
than the one at hand say nothing. Neither do keywords that are not listed here,
such as those on encoded contents, nor formats other than that of patterns.

## Main definitions

* `Schema.failuresOf`: what one keyword refuses, given how inner schemas are checked.
* `Schema.failures`: everything a schema refuses in a value.
-/

namespace Filewise.Schema

/-- How an inner schema is checked: schema, value, and the place of the value. -/
abbrev Checker := Value → Value → List String → List Failure

/-! ### Conditions on values -/

/-- Whether a value is of the named type; a number without fractional part is an
integer however it is written. -/
def isOfType (type : String) : Value → Bool
  | .null => type == "null"
  | .bool _ => type == "boolean"
  | .integer _ => type == "integer" || type == "number"
  | .float x => type == "number" || (type == "integer" && x.isIntegral)
  | .text _ => type == "string"
  | .array _ => type == "array"
  | .object _ => type == "object"

/-- A limit on a count. -/
def count? (v : Value) : Option Nat :=
  match v.number? with
  | some q => if q.den = 1 ∧ 0 ≤ q.num then some q.num.toNat else none
  | none => none

/-- The nearest floating-point number. -/
def double? : Value → Option Double
  | .integer n => some (Double.ofInt n)
  | .float x => some x
  | _ => none

/-- The distance between 1 and the next floating-point number. -/
def epsilon : Rat := mkRat 1 Double.leadingWeight

/-- The fractional part, with the sign of the number. -/
def fractionalPart (q : Rat) : Rat := q - (Int.tdiv q.num q.den : Int)

/-- Whether a number is a multiple of another one. An integral divisor has to
divide exactly; for another divisor the fractional part of the rounded quotient
has to lie below `epsilon`. -/
def isMultiple (value divisor : Double) : Bool :=
  if divisor.isIntegral then decide ((value.toRat / divisor.toRat).den = 1)
  else
    let quotient := value.div divisor
    if quotient.isFinite then decide (fractionalPart quotient.toRat < epsilon)
    else decide ((value.toRat / divisor.toRat).den = 1)

/-- Whether a value is the constant; numbers may differ by less than `epsilon`. -/
def isConstant (constant value : Value) : Bool :=
  match double? constant, double? value with
  | some c, some v =>
    let difference := c.toRat - v.toRat
    decide (difference < epsilon ∧ -difference < epsilon)
  | _, _ => constant.equivalent value

/-- Whether no item of a list is equivalent to a later one. -/
def allDifferent : List Value → Bool
  | [] => true
  | v :: rest => !(rest.any v.equivalent) && allDifferent rest

/-- Whether a text has a part that matches a pattern. -/
def hasMatch (pattern text : String) : Bool :=
  ((Pattern.parse? pattern).map (·.matches text)).getD false

/-- Whether a text is in the named format. The format of patterns is the only one
that is known here; a text counts as being in any other one. -/
def isInFormat (format text : String) : Bool :=
  if format == "regex" then (Pattern.parse? text).isSome else true

/-! ### Places -/

/-- The items of a list with their places. -/
def placed (place : List String) (items : List Value) : List (List String × Value) :=
  items.zipIdx.map fun (v, i) => (place ++ [toString i], v)

/-- What a list of values refuses, each at its place. -/
def eachItem (check : Checker) (schema : Value) (items : List (List String × Value)) :
    List Failure :=
  items.flatMap fun (place, v) => check schema v place

/-! ### Properties -/

/-- The schemas of named properties. -/
def fieldSchemas (keywords : List (String × Value)) (keyword : String) : List (String × Value) :=
  ((Dict.find? keywords keyword).bind Value.fields?).getD []

/-- Whether the keyword for further properties also looks at the declared ones. -/
def closesProperties (keywords : List (String × Value)) : Bool :=
  match Dict.find? keywords "additionalProperties" with
  | some (.bool false) | some (.object _) => true
  | _ => false

/-- The schemas that a property has to satisfy by its name or by a pattern. -/
def declaredFor (keywords : List (String × Value)) (name : String) : List Value :=
  (Dict.find? (fieldSchemas keywords "properties") name).toList ++
  ((fieldSchemas keywords "patternProperties").filter fun (p, _) => hasMatch p name).map Prod.snd

/-- What is refused when all properties that are not declared are checked against
a schema, or refused without one. -/
def closedProperties (check : Checker) (keywords : List (String × Value)) (other : Option Value)
    (value : Value) (fields : List (String × Value)) (place : List String) : List Failure :=
  let declared := fields.flatMap fun (name, v) =>
    match declaredFor keywords name, other with
    | [], some schema => check schema v (place ++ [name])
    | schemas, _ => schemas.flatMap fun schema => check schema v (place ++ [name])
  let extra := fields.filter fun (name, _) => (declaredFor keywords name).isEmpty
  if other.isSome || extra.isEmpty then declared
  else if (Dict.find? keywords "properties").isNone &&
      (Dict.find? keywords "patternProperties").isNone then
    extra.map fun (_, v) => ⟨place, v, .nothingAllowed⟩
  else declared ++ [⟨place, value, .extraProperties (extra.map Prod.fst)⟩]

/-! ### Keywords -/

/-- A refusal unless a condition holds. -/
def refuseUnless (condition : Bool) (place : List String) (value : Value) (refusal : Refusal) :
    List Failure :=
  if condition then [] else [⟨place, value, refusal⟩]

/-- Whether a schema accepts a value. -/
def accepts (check : Checker) (schema value : Value) (place : List String) : Bool :=
  (check schema value place).isEmpty

/-- What keywords on numbers refuse. -/
def numberFailures (keyword : String) (argument value : Value) (place : List String) :
    List Failure :=
  match value.number?, argument.number? with
  | some v, some limit =>
    match keyword with
    | "minimum" => refuseUnless (limit ≤ v) place value (.belowMinimum argument)
    | "maximum" => refuseUnless (v ≤ limit) place value (.aboveMaximum argument)
    | "exclusiveMinimum" => refuseUnless (limit < v) place value (.notAboveLimit argument)
    | "exclusiveMaximum" => refuseUnless (v < limit) place value (.notBelowLimit argument)
    | "multipleOf" =>
      match double? value, double? argument with
      | some x, some divisor =>
        refuseUnless (isMultiple x divisor) place value (.notMultiple divisor)
      | _, _ => []
    | _ => []
  | _, _ => []

/-- What keywords on texts refuse. -/
def textFailures (keyword : String) (argument : Value) (text : String) (place : List String) :
    List Failure :=
  let refuse (condition : Bool) (refusal : Refusal) : List Failure :=
    refuseUnless condition place (.text text) refusal
  match keyword, argument with
  | "pattern", .text pattern => refuse (hasMatch pattern text) (.patternMismatch pattern)
  | "format", .text format => refuse (isInFormat format text) (.formatMismatch format)
  | "minLength", _ => (count? argument).elim [] fun n => refuse (n ≤ text.length) (.tooShort n)
  | "maxLength", _ => (count? argument).elim [] fun n => refuse (text.length ≤ n) (.tooLong n)
  | _, _ => []

/-- What keywords on lists refuse. -/
def listFailures (check : Checker) (keywords : List (String × Value)) (keyword : String)
    (argument : Value) (items : List Value) (place : List String) : List Failure :=
  let refuse (condition : Bool) (refusal : Refusal) : List Failure :=
    refuseUnless condition place (.array items) refusal
  let declared : Option Nat := match Dict.find? keywords "items" with
    | some (.array schemas) => some schemas.length
    | _ => none
  match keyword, argument with
  | "items", .array schemas =>
    (schemas.zip (placed place items)).flatMap fun (schema, place, v) => check schema v place
  | "items", schema => eachItem check schema (placed place items)
  | "additionalItems", .bool false =>
    declared.elim [] fun n => refuse (items.length ≤ n) (.extraItems (items.drop n))
  | "additionalItems", .object schema =>
    declared.elim [] fun n => eachItem check (.object schema) ((placed place items).drop n)
  | "contains", schema =>
    refuse ((placed place items).any fun (place, v) => accepts check schema v place)
      .nothingContained
  | "uniqueItems", .bool true => refuse (allDifferent items) .repeatedItems
  | "minItems", _ => (count? argument).elim [] fun n => refuse (n ≤ items.length) (.tooFewItems n)
  | "maxItems", _ => (count? argument).elim [] fun n => refuse (items.length ≤ n) (.tooManyItems n)
  | _, _ => []

/-- What is refused when all of some properties have to be present. -/
def missing (names : List Value) (fields : List (String × Value)) (place : List String) :
    List Failure :=
  (names.filterMap Value.text?).flatMap fun name =>
    refuseUnless (Dict.contains fields name) place (.object fields) (.missingProperty name)

/-- What keywords on objects refuse. -/
def objectFailures (check : Checker) (keywords : List (String × Value)) (keyword : String)
    (argument : Value) (fields : List (String × Value)) (place : List String) : List Failure :=
  let value := Value.object fields
  match keyword, argument with
  | "additionalProperties", .bool false =>
    closedProperties check keywords none value fields place
  | "additionalProperties", .object schema =>
    closedProperties check keywords (some (.object schema)) value fields place
  | "properties", .object schemas =>
    -- the other keyword then looks at declared properties as well
    if closesProperties keywords then []
    else schemas.flatMap fun (name, schema) =>
      (Dict.find? fields name).elim [] fun v => check schema v (place ++ [name])
  | "patternProperties", .object schemas =>
    if closesProperties keywords then []
    else schemas.flatMap fun (pattern, schema) =>
      (fields.filter fun (name, _) => hasMatch pattern name).flatMap fun (name, v) =>
        check schema v (place ++ [name])
  | "propertyNames", .bool false =>
    refuseUnless fields.isEmpty place value .nothingAllowed
  | "propertyNames", schema => fields.flatMap fun (name, _) => check schema (.text name) place
  | "dependencies", .object dependencies =>
    dependencies.flatMap fun (name, dependency) =>
      if Dict.contains fields name then
        match dependency with
        | .array names => missing names fields place
        | schema => check schema value place
      else []
  | "required", .array names => missing names fields place
  | "minProperties", _ =>
    (count? argument).elim [] fun n =>
      refuseUnless (n ≤ fields.length) place value (.tooFewProperties n)
  | "maxProperties", _ =>
    (count? argument).elim [] fun n =>
      refuseUnless (fields.length ≤ n) place value (.tooManyProperties n)
  | _, _ => []

/-- The names of types in ascending order. -/
def sortTypes (types : List String) : List String := types.mergeSort fun a b => decide (a ≤ b)

/-- What keywords on values of every kind refuse. -/
def generalFailures (check : Checker) (keywords : List (String × Value)) (keyword : String)
    (argument value : Value) (place : List String) : List Failure :=
  let refuse (condition : Bool) (refusal : Refusal) : List Failure :=
    refuseUnless condition place value refusal
  match keyword, argument with
  | "type", .text type => refuse (isOfType type value) (.wrongType [type])
  | "type", .array types =>
    let names := types.filterMap Value.text?
    refuse (names.any fun t => isOfType t value) (.wrongType (sortTypes names))
  | "enum", .array values => refuse (values.any value.equivalent) (.notListed values)
  | "const", constant => refuse (isConstant constant value) (.notConstant constant)
  | "allOf", .array schemas => schemas.flatMap fun schema => check schema value place
  | "anyOf", .array schemas =>
    refuse (schemas.any fun schema => accepts check schema value place) (.noneAccepts .anyOf)
  | "oneOf", .array schemas =>
    match (schemas.filter fun schema => accepts check schema value place).length with
    | 0 => [⟨place, value, .noneAccepts .oneOf⟩]
    | 1 => []
    | _ => [⟨place, value, .severalAccept⟩]
  | "not", schema => refuse (!accepts check schema value place) (.excluded schema)
  | "if", condition =>
    -- the condition reports nothing itself
    let branch := if accepts check condition value place then "then" else "else"
    (Dict.find? keywords branch).elim [] fun schema => check schema value place
  | _, _ => []

/-- What one keyword of a schema refuses in a value. -/
def failuresOf (check : Checker) (keywords : List (String × Value)) (keyword : String)
    (argument value : Value) (place : List String) : List Failure :=
  generalFailures check keywords keyword argument value place ++
  match value with
  | .text s => textFailures keyword argument s place
  | .array items => listFailures check keywords keyword argument items place
  | .object fields => objectFailures check keywords keyword argument fields place
  | v => numberFailures keyword argument v place

/-! ### Schemas -/

/-- The part of a schema that a reference inside it names. -/
def resolve? (root : Value) (reference : String) : Option Value :=
  match (reference.toList.splitOn '/').map String.ofList with
  | "#" :: names => names.foldlM Value.field? root
  | _ => none

/-- What a schema refuses in a value, with `root` as the schema that references
start from. Inner schemas are checked to the given depth. -/
def failuresWithin (root : Value) : Nat → Checker
  | 0, _, _, _ => []
  | depth + 1, schema, value, place =>
    match schema with
    | .bool false => [⟨place, value, .nothingAllowed⟩]
    | .object keywords =>
      match Dict.find? keywords "$ref" with
      -- a reference stands alone: the keywords beside it do not count
      | some (.text reference) =>
        match resolve? root reference with
        | some inner => failuresWithin root depth inner value place
        | none => [⟨place, value, .badReference reference⟩]
      | _ =>
        keywords.flatMap fun (keyword, argument) =>
          failuresOf (failuresWithin root depth) keywords keyword argument value place
    | _ => []

mutual

/-- The number of values that a value is made of. -/
def size : Value → Nat
  | .array items => sizeOfItems items + 1
  | .object fields => sizeOfFields fields + 1
  | _ => 1

/-- The number of values in a list of values. -/
def sizeOfItems : List Value → Nat
  | [] => 0
  | v :: rest => size v + sizeOfItems rest

/-- The number of values in a list of fields. -/
def sizeOfFields : List (String × Value) → Nat
  | [] => 0
  | (_, v) :: rest => size v + sizeOfFields rest

end

/-- A depth that is never exceeded: without going further into the value, each
part of the schema is met once at most, unless references run in a circle. -/
def depthFor (schema value : Value) : Nat := (size schema + 1) * (size value + 1)

/-- Everything a schema refuses in a value. -/
def failures (schema value : Value) : List Failure :=
  failuresWithin schema (depthFor schema value) schema value []

end Filewise.Schema
