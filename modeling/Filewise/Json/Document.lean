import Filewise.Json.Token

/-!
# JSON documents

A text is read from the front to the end. What is open around the place where
reading is, is kept on a stack, so that every step is a small one. Of two fields with
one name the later one stays, and fields end up in ascending order of their names.
Nesting is limited to 127 levels.

## Main definitions

* `Json.Frame`, `Json.Machine`: what is open, and what may follow.
* `Json.Machine.step`: one step.
* `Value.ofJson`: the value of a text, or its first fault.
-/

namespace Filewise.Json

/-- An array or object that waits for a value. -/
inductive Frame where
  /-- The items so far, the last one first. -/
  | items (done : List Value)
  /-- The fields so far, and the name whose value comes next. -/
  | field (done : Dict Value) (name : String)

/-- What may follow. -/
inductive Expected where
  | value
  /-- The first item of an array, or its end. -/
  | firstItem
  /-- An item after a comma. -/
  | nextItem (done : List Value)
  | afterItem (done : List Value)
  /-- The first name in an object, or its end. -/
  | firstName
  /-- A name after a comma. -/
  | nextName (done : Dict Value)
  | colon (done : Dict Value) (name : String)
  | afterField (done : Dict Value)
  /-- Nothing more: the value is complete. -/
  | done (v : Value)

/-- The state of reading: what is open and waits for a value, innermost first, and what
may follow. -/
structure Machine where
  stack : List Frame
  expected : Expected

namespace Machine

/-- Nothing has been read. -/
def start : Machine := ⟨[], .value⟩

/-- Hands a complete value to the innermost array or object that waits for it. -/
def complete (v : Value) : List Frame → Machine
  | [] => ⟨[], .done v⟩
  | .items done :: stack => ⟨stack, .afterItem (v :: done)⟩
  | .field done name :: stack => ⟨stack, .afterField (done.insert name v)⟩

/-- The greatest number of arrays and objects inside each other. -/
def deepest : Nat := 127

/-- Reads a value, or the opening bracket of one. -/
def takeValue (stack : List Frame) (c : Char) (rest : List Char) :
    Except Stop (Machine × List Char) :=
  if c = '[' ∨ c = '\x7b' then
    -- the depth counts brackets, whatever is between them
    if stack.length < deepest then
      .ok (⟨stack, if c = '[' then .firstItem else .firstName⟩, rest)
    else stopOn .nestedTooDeeply (c :: rest)
  else do
    let (v, rest) ← readScalar (c :: rest)
    return (complete v stack, rest)

/-- Reads a name. -/
def takeName (stack : List Frame) (done : Dict Value) (c : Char) (rest : List Char) :
    Except Stop (Machine × List Char) :=
  if c = '"' then do
    let (name, rest) ← readText rest
    return (⟨stack, .colon done name⟩, rest)
  else stopOn .nameNotText (c :: rest)

/-- Reads one thing that begins with a character other than a blank. -/
def step (m : Machine) (c : Char) (rest : List Char) : Except Stop (Machine × List Char) :=
  match m.expected with
  | .value => takeValue m.stack c rest
  | .firstItem =>
    if c = ']' then .ok (complete (.array []) m.stack, rest)
    else takeValue (.items [] :: m.stack) c rest
  | .nextItem done =>
    -- a comma promises another item
    if c = ']' then stopOn .trailingComma (c :: rest)
    else takeValue (.items done :: m.stack) c rest
  | .afterItem done =>
    if c = ']' then .ok (complete (.array done.reverse) m.stack, rest)
    else if c = ',' then .ok (⟨m.stack, .nextItem done⟩, rest)
    else stopOn .noItemEnd (c :: rest)
  | .firstName =>
    if c = '\x7d' then .ok (complete (.object []) m.stack, rest) else takeName m.stack [] c rest
  | .nextName done =>
    if c = '\x7d' then stopOn .trailingComma (c :: rest) else takeName m.stack done c rest
  | .colon done name =>
    if c = ':' then .ok (⟨.field done name :: m.stack, .value⟩, rest)
    else stopOn .noColon (c :: rest)
  | .afterField done =>
    if c = '\x7d' then .ok (complete (.object done) m.stack, rest)
    else if c = ',' then .ok (⟨m.stack, .nextName done⟩, rest)
    else stopOn .noFieldEnd (c :: rest)
  | .done _ => stopOn .trailingCharacters (c :: rest)

/-- The value at the end of the text. -/
def finish (m : Machine) : Except Stop Value :=
  match m.expected with
  | .done v => .ok v
  | .value | .nextItem _ | .nextName _ => stopAt .endOfValue []
  | .firstItem | .afterItem _ => stopAt .endOfArray []
  | .firstName | .colon _ _ | .afterField _ => stopAt .endOfObject []

end Machine

/-- Blank characters. -/
def isBlank (c : Char) : Bool := c == ' ' || c == '\t' || c == '\n' || c == '\r'

/-- Reads the rest of a text. The first argument bounds the number of steps. -/
def run : Nat → Machine → List Char → Except Stop Value
  | 0, m, _ => m.finish
  | steps + 1, m, text =>
    match text.dropWhile isBlank with
    | [] => m.finish
    | c :: rest => do
      let (m, rest) ← m.step c rest
      run steps m rest

end Filewise.Json

namespace Filewise.Value

/-- The value of a JSON text, or the first fault of the text. Each step reads at least
one character. -/
def ofJson (text : String) : Except Json.Fault Value :=
  let chars := text.toList
  match Json.run (chars.length + 1) .start chars with
  | .ok v => .ok v
  | .error stop => .error (stop.fault chars)

end Filewise.Value
