import Filewise.Output
import Mathlib.Data.List.Perm.Basic

/-!
# Calls that share their claims

Many calls can claim output paths and write output files at a time. Each of them takes its steps one
after the other: it claims its path, and unless this is all, it makes the directory, puts the file
in place and counts it. The steps of different calls happen in any order. A call that is left alone
does what claiming a path or writing a file does.

## Main definitions

* `Call`, `Call.Stage`, `Call.Step`: the calls, and one step of one call.
* `Calls.Run`: the runs of several calls, with the calls that put their files in place.

## Main results

* `Calls.run_alone`: a call that is left alone.
-/

namespace Filewise

/-- A call for an output path of a target by a source. -/
structure Call where
  target : String
  path : Path
  source : Path
  /-- The root and the content to write, unless the path is only claimed. -/
  file? : Option (Path × ByteArray)
  deriving DecidableEq

namespace Call

/-- What a call is about to do. -/
inductive Stage where
  | claiming
  | makingDirectory
  | placing
  | counting
  /-- Nothing; it has its answer. A file that was written is answered with its path. -/
  | returned (answer : Except WriteError (Option Path))
  deriving DecidableEq

/-- A call is about to count the file that it has just put in place. -/
def Stage.isCounting : Stage → Bool
  | .counting => true
  | _ => false

/-- The file of a call has been put in place. -/
def Stage.isPlaced : Stage → Bool
  | .counting | .returned (.ok (some _)) => true
  | _ => false

/-- A call has answered that its file was written. -/
def Stage.isWritten : Stage → Bool
  | .returned (.ok (some _)) => true
  | _ => false

/-- One step of a call. -/
inductive Step (call : Call) (o : Outputs) (tree : Tree) : Stage → Outputs → Tree → Stage → Prop
  | claim {o'} : o.claim call.target call.path call.source = .ok o' → call.file? = none →
      Step call o tree .claiming o' tree (.returned (.ok none))
  | claimToWrite {o' file} : o.claim call.target call.path call.source = .ok o' →
      call.file? = some file → Step call o tree .claiming o' tree .makingDirectory
  | claimFails {e} : o.claim call.target call.path call.source = .error e →
      Step call o tree .claiming o tree (.returned (.error e))
  | makeDirectory {root content tree'} : call.file? = some (root, content) →
      Outputs.makeDirectory tree root call.path = (tree', .ok ()) →
      Step call o tree .makingDirectory o tree' .placing
  | makeDirectoryFails {root content tree' e} : call.file? = some (root, content) →
      Outputs.makeDirectory tree root call.path = (tree', .error e) →
      Step call o tree .makingDirectory o tree' (.returned (.error e))
  | place {root content tree'} : call.file? = some (root, content) →
      Outputs.place tree root call.path content = .ok tree' →
      Step call o tree .placing o tree' .counting
  | placeFails {root content e} : call.file? = some (root, content) →
      Outputs.place tree root call.path content = .error e →
      Step call o tree .placing o tree (.returned (.error e))
  | count {root content} : call.file? = some (root, content) →
      Step call o tree .counting o.count tree
        (.returned (.ok (some (Outputs.destination root call.path))))

end Call

/-- Several calls and what they share. -/
structure Calls where
  outputs : Outputs
  tree : Tree
  calls : List (Call × Call.Stage)

namespace Calls

/-- Nothing is claimed yet. -/
def start (calls : List Call) (tree : Tree) : Calls :=
  ⟨Outputs.empty, tree, calls.map (·, .claiming)⟩

/-- The runs of several calls: the calls that put their files in place, one after the other, and
what is reached. -/
inductive Run (first : Calls) : List Call → Calls → Prop
  | start : Run first [] first
  | step {placed s i call stage o tree stage'} : Run first placed s →
      s.calls[i]? = some (call, stage) → call.Step s.outputs s.tree stage o tree stage' →
      Run first (placed ++ if stage'.isCounting then [call] else [])
        ⟨o, tree, s.calls.set i (call, stage')⟩

variable {first s : Calls} {placed placed' : List Call}

/-- One run after another. -/
theorem Run.trans {s' : Calls} (h : Run first placed s) (h' : Run s placed' s') :
    Run first (placed ++ placed') s' := by
  induction h' with
  | start => rwa [List.append_nil]
  | step _ hcall hstep ih =>
    rw [← List.append_assoc]
    exact ih.step hcall hstep

/-- What a call does that is left alone. -/
def alone (call : Call) (o : Outputs) (tree : Tree) :
    Outputs × Tree × Except WriteError (Option Path) :=
  match call.file? with
  | none =>
    match o.claim call.target call.path call.source with
    | .ok o => (o, tree, .ok none)
    | .error e => (o, tree, .error e)
  | some (root, content) =>
    let (o, tree, answer) :=
      o.write tree call.target root call.path call.source content
    (o, tree, some <$> answer)

/-- What is reached when a call is left alone until it has its answer. -/
def finish (s : Calls) (i : Nat) (call : Call) : Calls :=
  let (outputs, tree, answer) := alone call s.outputs s.tree
  ⟨outputs, tree, s.calls.set i (call, .returned answer)⟩

/-- The file that is put in place when a call is left alone. -/
def placedAlone (s : Calls) (call : Call) : List Call :=
  if (Call.Stage.returned (alone call s.outputs s.tree).2.2).isWritten then [call] else []

/-- A call that is left alone claims its path or writes its file. -/
theorem run_alone {s : Calls} {i : Nat} {call : Call}
    (hcall : s.calls[i]? = some (call, .claiming)) :
    Run s (s.placedAlone call) (s.finish i call) := by
  have hlt := (List.getElem?_eq_some_iff.mp hcall).1
  have hself : ∀ entry, (s.calls.set i entry)[i]? = some entry := fun entry =>
    List.getElem?_set_self hlt
  -- each step is taken by the call that took the one before
  have hnext : ∀ {placed o tree stage o' tree' stage'},
      Run s placed ⟨o, tree, s.calls.set i (call, stage)⟩ →
      call.Step o tree stage o' tree' stage' →
      Run s (placed ++ if stage'.isCounting then [call] else [])
        ⟨o', tree', s.calls.set i (call, stage')⟩ := by
    intro placed o tree stage o' tree' stage' hrun hstep
    have hstep' := hrun.step (hself (call, stage)) hstep
    rwa [List.set_set] at hstep'
  cases hfile : call.file? with
  | none =>
    simp only [placedAlone, finish, alone, hfile]
    cases hclaim : s.outputs.claim call.target call.path call.source with
    | error e => exact Run.start.step hcall (.claimFails hclaim)
    | ok o => exact Run.start.step hcall (.claim hclaim hfile)
  | some file =>
    obtain ⟨root, content⟩ := file
    simp only [placedAlone, finish, alone, hfile, Outputs.write]
    cases hclaim : s.outputs.claim call.target call.path call.source with
    | error e => exact Run.start.step hcall (.claimFails hclaim)
    | ok o =>
      have hclaimed := Run.start.step hcall (.claimToWrite hclaim hfile)
      rcases hmake : Outputs.makeDirectory s.tree root call.path with ⟨tree, e | _⟩
      · exact hnext hclaimed (.makeDirectoryFails hfile hmake)
      · have hmade := hnext hclaimed (.makeDirectory hfile hmake)
        cases hplace : Outputs.place tree root call.path content with
        | error e =>
          simp only [hplace]
          exact hnext hmade (.placeFails hfile hplace)
        | ok tree' =>
          simp only [hplace]
          exact hnext (hnext hmade (.place hfile hplace)) (.count hfile)

end Calls

end Filewise
