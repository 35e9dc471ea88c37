import Filewise.Schema.Check

/-!
# The schema of schemas

A schema is a value, so which values are schemas is said by a schema: the one of
draft 7. A value that it refuses is not used as a schema.

## Main definitions

* `Schema.draft`: the schema that all schemas satisfy.
* `Schema.fault?`: why a value is not a schema.
-/

namespace Filewise.Schema

namespace Draft

/-- An object with its fields in order. -/
def object (fields : List (String × Value)) : Value := .object (Dict.ofList fields)

/-- A schema for values of one type. -/
def ofType (type : String) : Value := object [("type", .text type)]

/-- A reference to a part of the schema of schemas. -/
def reference (place : String) : Value := object [("$ref", .text place)]

/-- Any schema. -/
def schema : Value := reference "#"

/-- A list of schemas that is not empty. -/
def schemas : Value := reference "#/definitions/schemaArray"

/-- A number of things. -/
def count : Value := reference "#/definitions/nonNegativeInteger"

/-- A number of things that is zero if it is left out. -/
def countOrZero : Value := reference "#/definitions/nonNegativeIntegerDefault0"

/-- A list of different texts. -/
def texts : Value := reference "#/definitions/stringArray"

/-- A text in a format. -/
def formatted (format : String) : Value :=
  object [("type", .text "string"), ("format", .text format)]

/-- A truth value that is false if it is left out. -/
def boolOrFalse : Value := object [("type", .text "boolean"), ("default", .bool false)]

/-- Schemas by name, with further keywords. -/
def schemasByName (more : List (String × Value)) : Value :=
  object ([("type", .text "object"), ("additionalProperties", schema)] ++ more)

/-- The default of keywords that hold an object. -/
def emptyDefault : String × Value := ("default", .object [])

/-- The parts that other parts refer to. -/
def definitions : Value :=
  object
    [("schemaArray", object
        [("type", .text "array"), ("minItems", .integer 1), ("items", schema)]),
      ("nonNegativeInteger", object [("type", .text "integer"), ("minimum", .integer 0)]),
      ("nonNegativeIntegerDefault0", object
        [("allOf", .array [count, object [("default", .integer 0)]])]),
      ("simpleTypes", object
        [("enum", .array (["array", "boolean", "integer", "null", "number", "object",
          "string"].map .text))]),
      ("stringArray", object
        [("type", .text "array"), ("items", ofType "string"), ("uniqueItems", .bool true),
          ("default", .array [])])]

/-- What the keywords have to be. -/
def keywords : Value :=
  let simpleType := reference "#/definitions/simpleTypes"
  object
    [("$id", formatted "uri-reference"), ("$schema", formatted "uri"),
      ("$ref", formatted "uri-reference"), ("$comment", ofType "string"),
      ("title", ofType "string"), ("description", ofType "string"), ("default", .bool true),
      ("readOnly", boolOrFalse),
      ("examples", object [("type", .text "array"), ("items", .bool true)]),
      ("multipleOf", object [("type", .text "number"), ("exclusiveMinimum", .integer 0)]),
      ("maximum", ofType "number"), ("exclusiveMaximum", ofType "number"),
      ("minimum", ofType "number"), ("exclusiveMinimum", ofType "number"),
      ("maxLength", count), ("minLength", countOrZero), ("pattern", formatted "regex"),
      ("additionalItems", schema),
      ("items", object [("anyOf", .array [schema, schemas]), ("default", .bool true)]),
      ("maxItems", count), ("minItems", countOrZero), ("uniqueItems", boolOrFalse),
      ("contains", schema), ("maxProperties", count), ("minProperties", countOrZero),
      ("required", texts), ("additionalProperties", schema),
      ("definitions", schemasByName [emptyDefault]), ("properties", schemasByName [emptyDefault]),
      ("patternProperties", schemasByName
        [("propertyNames", object [("format", .text "regex")]), emptyDefault]),
      ("dependencies", object
        [("type", .text "object"),
          ("additionalProperties", object [("anyOf", .array [schema, texts])])]),
      ("propertyNames", schema), ("const", .bool true),
      ("enum", object [("type", .text "array"), ("items", .bool true)]),
      ("type", object
        [("anyOf", .array
          [simpleType, object
            [("type", .text "array"), ("items", simpleType), ("minItems", .integer 1),
              ("uniqueItems", .bool true)]])]),
      ("format", ofType "string"), ("contentMediaType", ofType "string"),
      ("contentEncoding", ofType "string"), ("if", schema), ("then", schema), ("else", schema),
      ("allOf", schemas), ("anyOf", schemas), ("oneOf", schemas), ("not", schema)]

end Draft

/-- The schema that every schema satisfies. -/
def draft : Value :=
  Draft.object
    [("title", .text "Core schema meta-schema"), ("definitions", Draft.definitions),
      ("type", .array [.text "object", .text "boolean"]), ("properties", Draft.keywords),
      ("default", .bool true)]

/-- The first reason why a value is not a schema. -/
def fault? (schema : Value) : Option Failure := (failures draft schema).head?

end Filewise.Schema
