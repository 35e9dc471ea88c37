import Filewise.Dict
import Filewise.Number.Double

/-!
# Values

The values that options, rules and configurations are made of: those of JSON,
with integers kept apart from floating-point numbers. An object lists its fields;
every reader of this library lists them in ascending order of their names, each
name once, while a report lists them in the order it wants them written.

## Main definitions

* `Value`, `Options`.
* `Value.number?`: the exact value of a number of either kind.
* `Value.equivalent`: equality that compares numbers by value.
-/

namespace Filewise

/-- A value of an option. -/
inductive Value where
  | null
  | bool (b : Bool)
  | integer (n : Int)
  | float (x : Double)
  | text (s : String)
  | array (items : List Value)
  | object (fields : List (String × Value))
  deriving Inhabited, Repr

/-- Option names with their values, in ascending order of the names. -/
abbrev Options := Dict Value

namespace Value

/-- The text, if the value is one. -/
def text? : Value → Option String
  | .text s => some s
  | _ => none

/-- The truth value, if the value is one. -/
def bool? : Value → Option Bool
  | .bool b => some b
  | _ => none

/-- The items, if the value is an array. -/
def items? : Value → Option (List Value)
  | .array items => some items
  | _ => none

/-- The fields, if the value is an object. -/
def fields? : Value → Option (List (String × Value))
  | .object fields => some fields
  | _ => none

/-- The exact value of a number. -/
def number? : Value → Option Rat
  | .integer n => some n
  | .float x => some x.toRat
  | _ => none

/-- A field of an object. -/
def field? (v : Value) (name : String) : Option Value :=
  match v with
  | .object fields => Dict.find? fields name
  | _ => none

mutual

/-- Whether two values are the same when numbers are compared by value. -/
def equivalent : Value → Value → Bool
  | .null, .null => true
  | .bool a, .bool b => a == b
  | .integer m, w => match w with
    | .integer n => m == n
    | .float y => decide ((m : Rat) = y.toRat)
    | _ => false
  | .float x, w => match w with
    | .integer n => decide (x.toRat = (n : Rat))
    | .float y => decide (x.toRat = y.toRat)
    | _ => false
  | .text s, .text t => s == t
  | .array xs, .array ys => equivalentItems xs ys
  | .object fs, .object gs => equivalentFields fs gs
  | _, _ => false

/-- Whether two lists of values are the same, place by place. -/
def equivalentItems : List Value → List Value → Bool
  | [], [] => true
  | x :: xs, y :: ys => equivalent x y && equivalentItems xs ys
  | _, _ => false

/-- Whether two lists of fields have the same names and values, place by place. -/
def equivalentFields : List (String × Value) → List (String × Value) → Bool
  | [], [] => true
  | (k, x) :: fs, (l, y) :: gs => k == l && equivalent x y && equivalentFields fs gs
  | _, _ => false

end

end Value

end Filewise
