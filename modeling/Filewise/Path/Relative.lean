import Filewise.Path

/-!
# Paths seen from directories

Seen from a directory, a path leads up out of the directory as far as needed, and
then down.

## Main definitions

* `Path.seenFrom`: an absolute path, seen from an absolute directory.
-/

namespace Filewise.Path

/-- What leads from the components of a directory to those of a path. -/
def wayTo : List Component → List Component → List Component
  | [], path => path
  | directory, [] => List.replicate directory.length .up
  | a :: directory, b :: path =>
    if a = b then wayTo directory path
    else List.replicate (directory.length + 1) .up ++ b :: path

/-- A path seen from a directory. Both are absolute, and the directory is written
without double dots. -/
def seenFrom (p directory : Path) : Path :=
  .ofNames ((wayTo directory.components p.components).map Component.text)

end Filewise.Path
