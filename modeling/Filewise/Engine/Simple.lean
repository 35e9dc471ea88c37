import Filewise.Transformer
import Filewise.Value.Printer

/-!
# Simple transformers

Transformers that show what they are made from, or change a text in an obvious
way. They need no rules for options and serve to try out chains.

## Main definitions

* `Engine.tag`, `Engine.replace`, `Engine.identity`, `Engine.reject`.
* `Engine.showOption`, `Engine.showPlacement`, `Engine.failing`.
-/

namespace Filewise.Engine

/-- Another text in place of every occurrence of a pattern, from the left; `skip`
characters of the text belong to the occurrence before. An empty pattern occurs
before every character and at the end. -/
def replaceAllFrom (pattern replacement : List Char) : Nat → List Char → List Char
  | _ + 1, [] => []
  | skip + 1, _ :: rest => replaceAllFrom pattern replacement skip rest
  | 0, [] => if pattern.isEmpty then replacement else []
  | 0, c :: rest =>
    if pattern.isEmpty then replacement ++ c :: replaceAllFrom pattern replacement 0 rest
    else if pattern.isPrefixOf (c :: rest) then
      replacement ++ replaceAllFrom pattern replacement (pattern.length - 1) rest
    else c :: replaceAllFrom pattern replacement 0 rest

/-- A text with every occurrence of a pattern replaced. -/
def replaceAll (pattern replacement text : String) : String :=
  String.ofList (replaceAllFrom pattern.toList replacement.toList 0 text.toList)

/-- Whether a pattern occurs in a list of characters. -/
def occursInChars (pattern : List Char) : List Char → Bool
  | [] => pattern.isEmpty
  | c :: rest => pattern.isPrefixOf (c :: rest) || occursInChars pattern rest

/-- Whether a pattern occurs in a text. -/
def occursIn (pattern text : String) : Bool := occursInChars pattern.toList text.toList

/-- A transformer that always does the same. -/
def fixed (id : String) (convert : Conversion) : Transformer :=
  Transformer.new id fun _ => .ok convert

/-- Puts the text between parentheses, after the id. -/
def tag (id : String) : Transformer := fixed id fun content => .ok s!"{id}({content})"

/-- Replaces every occurrence of a text. -/
def replace (id pattern replacement : String) : Transformer :=
  fixed id fun content => .ok (replaceAll pattern replacement content)

/-- Changes nothing. -/
def identity (id : String) : Transformer := fixed id .ok

/-- Refuses texts in which a pattern occurs, and changes nothing in others. -/
def reject (id pattern reason : String) : Transformer :=
  fixed id fun content => if occursIn pattern content then .error reason else .ok content

/-- Adds the value of an option. -/
def showOption (id name : String) : Transformer :=
  Transformer.new id fun placement =>
    let shown := ((placement.options.find? name).getD .null).compact
    .ok fun content => .ok s!"{content}@{shown}"

/-- Adds the target and the options. -/
def showPlacement (id : String) : Transformer :=
  Transformer.new id fun placement =>
    let options := Value.compactOptions placement.options
    .ok fun content => .ok s!"{content}|{placement.target}|{placement.config.id}|{options}"

/-- Cannot be made. -/
def failing (id reason : String) : Transformer := Transformer.new id fun _ => .error reason

end Filewise.Engine
