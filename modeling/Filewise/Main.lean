import Filewise.Command.Run
import Std.Time.DateTime.Timestamp

/-!
# The program

What a command looks at is read from the file system into a tree, the command is carried
out on the tree, and what has changed in it is written back.

## Main definitions

* `Program.observe`: the part of the file system that a command looks at.
* `Program.apply`: the changes of a tree.
* `main`.
-/

namespace Filewise.Program

/-! ### Reading -/

/-- The time. -/
def now : IO Instant := do
  return ⟨(← Std.Time.Timestamp.now).toMillisecondsSinceUnixEpoch.toInt⟩

/-- A variable and its text, written with an equals sign between them. -/
def splitVariable (text : String) : String × String :=
  let chars := text.toList
  (String.ofList (chars.takeWhile (· != '=')),
    String.ofList ((chars.dropWhile (· != '=')).drop 1))

/-- The variables that the program was started with. -/
def environment : IO Environment := do
  let block ← IO.FS.readBinFile "/proc/self/environ"
  let texts := (Utf8.decodeLossy block).toList.splitOn '\x00'
  return Dict.ofList ((texts.filter (¬ ·.isEmpty)).map fun text =>
    splitVariable (String.ofList text))

/-- Whether a path leads to a directory, and whether it leads to anything. -/
def kind (p : Path) : IO (Bool × Bool) := do
  let here := (← IO.currentDir) / p.text
  return (← here.isDir, ← here.pathExists)

/-- The content of a file. -/
def content (p : Path) : IO ByteArray := do IO.FS.readBinFile ((← IO.currentDir) / p.text)

/-- The names in a directory. -/
def names (p : Path) : IO (List String) := do
  return (← ((← IO.currentDir) / p.text).readDir).toList.map (·.fileName)

/-- The path of a location. -/
def pathOf (location : Location) : Path := ⟨"/" ++ String.intercalate "/" location⟩

/-- Where the texts between the slashes of a path lead, and the directories on the way. -/
def observeWay (t : Tree) (place : Location) : List (List Char) → IO (Tree × Location)
  | [] => return (t, place)
  | segment :: rest => do
    let (isDirectory, _) ← kind (pathOf place)
    let t := if isDirectory ∧ place ≠ [] then t.put place .directory else t
    let next := match Path.innerComponent? segment with
      | none => place
      | some .up => place.dropLast
      | some c => place ++ [c.text]
    observeWay t next rest

/-- A tree with what stands at a location, and for a directory with everything in it if
that is asked for. -/
partial def observeAt (t : Tree) (location : Location) (isDeep : Bool) : IO Tree := do
  let (isDirectory, isThere) ← kind (pathOf location)
  if isDirectory then
    let t := if location = [] then t else t.put location .directory
    if isDeep then
      (← names (pathOf location)).foldlM (fun t name => observeAt t (location ++ [name]) true) t
    else return t
  else if isThere then
    return t.put location (.file (← content (pathOf location)))
  else return t

/-- A tree with what a path leads to, and the directories on the way. -/
def observePath (isDeep : Bool) (t : Tree) (p : Path) : IO Tree := do
  let (t, location) ← observeWay t (t.start p) p.segments
  observeAt t location isDeep

/-- The tree and the environment in which the program was started, with the given
configuration file and everything that the configuration names. -/
def observeConfig (config : Option Path) : IO Session := do
  let environment ← environment
  let here := (Path.mk (← IO.currentDir).toString).components.filterMap fun
    | .name s => some s
    | _ => none
  let t : Tree := { Tree.empty with workingDirectory := here }
  let t ← observePath false t t.workingPath
  let t ← (BuildConfig.candidateFiles t environment config).foldlM (observePath false) t
  let t ← match BuildConfig.loadResolved t environment config with
    | .error _ => pure t
    | .ok c =>
      (c.targets.flatMap fun target => [target.sourceRoot, target.outputRoot]).foldlM
        (observePath true) t
  return { tree := t, environment, processors := 4 }

/-- The session for a command. -/
def observe : Command → IO Session
  | .build a => do
    let s ← observeConfig a.config
    return { s with tree := ← a.report.toList.foldlM (observePath false) s.tree }
  | .plan a => observeConfig a.config
  | .transformers | .help _ => return { tree := Tree.empty, environment := [], processors := 4 }

/-! ### Writing -/

/-- Makes a directory, or writes a file and then gives it its name. -/
def applyChange (location : Location) : Entry → IO Unit
  | .directory => IO.FS.createDirAll (pathOf location).text
  | .file content => do
    let p := (pathOf location).text
    let draft := p ++ ".part"
    IO.FS.writeBinFile draft content
    IO.FS.rename draft p

/-- Changes the file system as a tree has changed. -/
def apply (before after : Tree) : IO Unit :=
  (before.changes after).forM fun (location, entry) => applyChange location entry

/-- Carries a command out. -/
def carryOut (command : Command) : IO Response := do
  let started ← now
  let s ← observe command
  let work ← IO.lazyPure fun _ => command.carryOut s
  let response := work.tell s started (← now)
  apply s.tree response.tree
  return response

end Filewise.Program

/-- Carries the command out that the arguments ask for. -/
def main (arguments : List String) : IO UInt32 := do
  match Filewise.Command.ofArguments arguments with
  | .error e =>
    IO.eprint s!"error: {e.message}\n"
    return Filewise.usageCode.toUInt32
  | .ok command =>
    let response ← Filewise.Program.carryOut command
    IO.print response.output
    IO.eprint response.errors
    return response.exitCode.toUInt32
