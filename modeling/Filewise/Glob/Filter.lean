import Filewise.Glob
import Filewise.Text.CharClass
import Filewise.Tree

/-!
# Filters of globs

A filter is a list of rules, each written as a line. A rule keeps what its glob
matches, or drops it if the line starts with an exclamation mark. The last rule
that matches decides. What no rule matches is dropped if it is a file and some
rule keeps files, and kept otherwise.

## Main definitions

* `Glob.Rule`, `Glob.Rule.parse?`: a rule and its reader.
* `Glob.Filter`, `Glob.Filter.drops`.
-/

namespace Filewise.Glob

/-- A rule of a filter. -/
structure Rule where
  /-- Drops what matches instead of keeping it. -/
  isExclude : Bool
  /-- Matches nothing but directories. -/
  directoriesOnly : Bool
  tokens : List Token

/-- A line that is not a rule. -/
structure LineFault where
  line : String
  fault : Fault
  deriving DecidableEq, Repr

/-- The sentence of a line that is not a rule. -/
def LineFault.message (f : LineFault) : String :=
  s!"error parsing glob '{f.line}': {f.fault.message}"

/-- A line without the blanks at its end, unless the last one is escaped. -/
def trimLine (line : List Char) : List Char :=
  if [' ', '\\'].isPrefixOf line.reverse then line
  else (line.reverse.dropWhile Text.isSpace).reverse

/-- A line without the marks in front of its glob. -/
structure Marks where
  isExclude : Bool
  /-- Matches from the top of the directory only. -/
  isAnchored : Bool
  glob : List Char

/-- Reads the marks in front of a glob: an exclamation mark to exclude, and a slash
to match from the top. Both an exclamation mark and a hash sign can be escaped. -/
def Marks.parse : List Char → Marks
  | '\\' :: '!' :: rest => ⟨false, false, '!' :: rest⟩
  | '\\' :: '#' :: rest => ⟨false, false, '#' :: rest⟩
  | '!' :: '/' :: rest => ⟨true, true, rest⟩
  | '!' :: rest => ⟨true, false, rest⟩
  | '/' :: rest => ⟨false, true, rest⟩
  | rest => ⟨false, false, rest⟩

/-- A glob without a slash at its end, which may be escaped, and whether it had one. -/
def withoutFinalSlash (glob : List Char) : List Char × Bool :=
  match glob.reverse with
  | '/' :: '\\' :: rest => (rest.reverse, true)
  | '/' :: rest => (rest.reverse, true)
  | _ => (glob, false)

/-- A glob that matches at every depth unless it is anchored or has a slash. -/
def atAnyDepth (isAnchored : Bool) (glob : List Char) : List Char :=
  if isAnchored || glob.contains '/' || glob == ['*', '*'] then glob
  else '*' :: '*' :: '/' :: glob

/-- A glob that matches what is inside a directory, but not the directory. -/
def insideOnly (glob : List Char) : List Char :=
  if ['/', '*', '*'].isSuffixOf glob then glob ++ ['/', '*'] else glob

/-- The rule that a line describes. Blank lines, and lines that start with a hash
sign, describe none. -/
def Rule.parse? (line : String) : Except LineFault (Option Rule) :=
  match line.toList with
  | '#' :: _ => .ok none
  | chars =>
    let chars := trimLine chars
    if chars.isEmpty then .ok none
    else
      let marks := Marks.parse chars
      -- the slash at the end says what is matched, not where
      let (glob, directoriesOnly) := withoutFinalSlash marks.glob
      match parse (insideOnly (atAnyDepth marks.isAnchored glob)) with
      | .ok tokens => .ok (some ⟨marks.isExclude, directoriesOnly, tokens⟩)
      | .error fault => .error ⟨String.ofList chars, fault⟩

/-- Whether a rule matches a path inside the directory, which is given by names. -/
def Rule.matches (r : Rule) (location : Location) (isDirectory : Bool) : Bool :=
  (isDirectory || !r.directoriesOnly) &&
    Glob.matches r.tokens ((String.intercalate "/" location).toList.flatMap String.utf8EncodeChar)

/-- Rules in order. -/
structure Filter where
  rules : List Rule

namespace Filter

/-- The last rule that matches. -/
def decisive? (f : Filter) (location : Location) (isDirectory : Bool) : Option Rule :=
  f.rules.reverse.find? fun r => r.matches location isDirectory

/-- Whether a file or a directory is dropped. -/
def drops (f : Filter) (location : Location) (isDirectory : Bool) : Bool :=
  match f.decisive? location isDirectory with
  | some rule => rule.isExclude
  | none => !isDirectory && f.rules.any fun r => !r.isExclude

end Filter

end Filewise.Glob
