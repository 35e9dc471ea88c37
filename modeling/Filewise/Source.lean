import Filewise.Tree.Access

/-!
# Source files

A source file is read when its content is asked for, and not again as long as
somebody needs it. Those who need it are counted; when the last of them is done,
the content is dropped. A failure to read is kept for good.

## Main definitions

* `Source`, `SourceContent`.
* `Source.read`: the content, read from a tree if it is not there.
* `Source.retain`, `Source.release`: one more, one fewer who need the content.
-/

namespace Filewise

/-- What is known of the content of a source file. -/
inductive SourceContent where
  | unread
  | loaded (content : ByteArray)
  | failed (e : SystemError)
  | released
  deriving DecidableEq

/-- A source file. -/
structure Source where
  /-- The path as it is shown. -/
  relative : Path
  absolute : Path
  content : SourceContent
  /-- How many still need the content. -/
  users : Nat
  deriving DecidableEq

namespace Source

/-- A source file that nobody has read. -/
def new (absolute relative : Path) : Source :=
  { relative, absolute, content := .unread, users := 0 }

/-- Whether the content is there. -/
def isLoaded (s : Source) : Bool :=
  match s.content with
  | .loaded _ => true
  | _ => false

/-- What reading the file gives. -/
def load (s : Source) (tree : Tree) : SourceContent :=
  match tree.read s.absolute with
  | .ok content => .loaded content
  | .error e => .failed e

/-- The content that is known after asking for it. -/
def refreshed (s : Source) (tree : Tree) : SourceContent :=
  match s.content with
  | .unread | .released => s.load tree
  | known => known

/-- Asks for the content. -/
def read (s : Source) (tree : Tree) : Source × Except BuildError ByteArray :=
  let content := s.refreshed tree
  let answer := match content with
    | .loaded bytes => .ok bytes
    | .failed e => .error (.io s.absolute (.system e))
    | .unread | .released => .error (.io s.absolute (.other "source content unavailable"))
  ({ s with content }, answer)

/-- One more needs the content. -/
def retain (s : Source) : Source := { s with users := s.users + 1 }

/-- One fewer needs the content. -/
def forget (s : Source) : Source := { s with users := s.users - 1 }

/-- Drops the content. -/
def drop (s : Source) : Source :=
  if s.isLoaded then { s with content := .released } else s

/-- One is done with the content; the last one drops it. -/
def release (s : Source) : Source := if s.users = 1 then s.forget.drop else s.forget

end Source

end Filewise
