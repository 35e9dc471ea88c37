import Filewise.Dict
import Filewise.Text.CharClass

/-!
# Replacing names in a script

Some names, or dotted paths of names, are replaced by texts wherever they stand
as a whole. A name can only begin at the start of the script or after a character
that belongs to no name or path, and it must not run on into an identifier
character. Where several names could begin, the longest is taken. What has been
taken, together with the character before it, is never looked at again, even if
it turned out to run on.

## Main definitions

* `Piece`: a character of the script, or an occurrence of a name.
* `pieces`: the script cut into pieces.
* `replaceNames`: the script with its names replaced.
-/

namespace Filewise.Script

/-- A piece of a script in which names are searched. -/
inductive Piece where
  | char (c : Char)
  /-- An occurrence of a name; it is replaced unless it runs on. -/
  | name (key : String) (replaced : Bool)
  deriving DecidableEq, Repr

/-- Characters after which a name may begin. -/
def isNameBoundary (c : Char) : Bool := ¬ (Text.isWordChar c || c == '$' || c == '.')

/-- The order in which names are tried: longer ones first, by their length in
UTF-8 bytes, and ascending among those of one length. -/
def triedBefore (a b : String) : Bool :=
  b.utf8ByteSize < a.utf8ByteSize || (a.utf8ByteSize == b.utf8ByteSize && decide (a ≤ b))

/-- The names of a dictionary in the order in which they are tried. -/
def orderedNames (replacements : Dict String) : List String :=
  replacements.keys.mergeSort triedBefore

/-- What follows a beginning of a text. -/
def dropStart? : List Char → List Char → Option (List Char)
  | [], text => some text
  | c :: start, d :: text => if c = d then dropStart? start text else none
  | _ :: _, [] => none

theorem eq_append_of_dropStart? {start text rest : List Char}
    (h : dropStart? start text = some rest) : text = start ++ rest := by
  fun_induction dropStart? start text with
  | case1 => simp_all
  | case2 c start text ih => simp [ih h]
  | case3 | case4 => simp at h

/-- The first of the names that the text starts with, and what follows it. -/
def firstName? (names : List String) (text : List Char) : Option (String × List Char) :=
  names.findSome? fun name => (dropStart? name.toList text).map (name, ·)

/-- What follows a name found in a text is no longer than the text. -/
theorem length_le_of_firstName? {names : List String} {text rest : List Char} {name : String}
    (h : firstName? names text = some (name, rest)) : rest.length ≤ text.length := by
  obtain ⟨name', _, hname⟩ := List.exists_of_findSome?_eq_some h
  obtain ⟨rest', hdrop, heq⟩ := Option.map_eq_some_iff.1 hname
  simp only [Prod.mk.injEq] at heq
  rw [eq_append_of_dropStart? hdrop, List.length_append, heq.2]
  omega

/-- An occurrence of a name before the given rest of a script. -/
def occurrence (name : String) (rest : List Char) : Piece :=
  .name name (¬ rest.head?.any Text.isIdentifierChar)

/-- The pieces of a text after the start of a script. -/
def piecesAfterStart (names : List String) : List Char → List Piece
  | [] => []
  | c :: rest =>
    if isNameBoundary c then
      match _h : firstName? names rest with
      -- the character before the name is used up, also if the name runs on
      | some (name, rest') => .char c :: occurrence name rest' :: piecesAfterStart names rest'
      | none => .char c :: piecesAfterStart names rest
    else .char c :: piecesAfterStart names rest
termination_by text => text.length
decreasing_by
  · have := length_le_of_firstName? (by assumption); simp; omega
  all_goals simp

/-- The pieces of a script. A name without characters can only stand at the very
start; the search then goes on after the first character. -/
def pieces (names : List String) (text : List Char) : List Piece :=
  match firstName? names text with
  | some (name, rest) =>
    -- an empty name has used nothing up, so the next character is passed over
    if name.isEmpty then
      match rest with
      | [] => [occurrence name []]
      | c :: rest => occurrence name (c :: rest) :: .char c :: piecesAfterStart names rest
    else occurrence name rest :: piecesAfterStart names rest
  | none => piecesAfterStart names text

/-- What a piece becomes. -/
def Piece.render (replacements : Dict String) : Piece → List Char
  | .char c => [c]
  | .name key true => ((replacements.find? key).getD key).toList
  | .name key false => key.toList

/-- A script with its names replaced. -/
def replaceNames (replacements : Dict String) (text : String) : String :=
  if replacements.isEmpty then text
  else
    String.ofList
      ((pieces (orderedNames replacements) text.toList).flatMap (·.render replacements))

end Filewise.Script
