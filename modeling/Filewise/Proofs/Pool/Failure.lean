import Filewise.Proofs.Output.Draft
import Filewise.Proofs.Pool.Step
import Mathlib.Logic.Relation

/-!
# Units that fail

A unit can fail at any point: because its target is not known, its source cannot be read or
converted, its output path belongs to another source, or the system refuses something while the
output is written. Wherever it fails, it has changed no file and left none behind. Only a unit that
was stopped while its output was written can have claimed its output path and made directories.

## Main definitions

* `Shared.runUnit`: what a unit leaves that is worked on from beginning to end.
* `Shared.runUnitOn`: the same on a system that opens drafts and may refuse anything.

## Main results

* `Worker.runs_unit`: a worker that is not disturbed works on a unit from beginning to end.
* `Shared.failed_unit_changes_no_file`: what a unit leaves that fails.
-/

namespace Filewise

/-! ### Units from beginning to end -/

namespace Shared

/-- Writes the output file of a unit, given how output files are written. -/
def writeBy (write : Outputs → Tree → String → Path → Path → Path → ByteArray →
      Outputs × Tree × Except WriteError Path)
    (s : Shared) (t : Target) (u : PlannedUnit) (content : ByteArray) : Shared × UnitResult :=
  let source := (s.source u).relative
  match write s.outputs s.tree t.id t.outputRoot u.outputPath source content with
  | (outputs, tree, .ok _) => ({ s with outputs, tree }, .ok ())
  | (outputs, tree, .error e) => ({ s with outputs, tree }, .error (unitError source e))

/-- Works on a unit from beginning to end, given how output files are written. -/
def runUnitBy (write : Outputs → Tree → String → Path → Path → Path → ByteArray →
      Outputs × Tree × Except WriteError Path)
    (s : Shared) (c : BuildConfig) (u : PlannedUnit) : Shared × UnitResult :=
  match s.convert c u with
  | (s, .error e) => (s, .error e)
  | (s, .ok (t, content)) => s.writeBy write t u content

/-- Works on a unit from beginning to end. -/
def runUnit (s : Shared) (c : BuildConfig) (u : PlannedUnit) : Shared × UnitResult :=
  s.runUnitBy Outputs.write c u

/-- Works on a unit from beginning to end on a system that opens drafts. -/
def runUnitOn (host : Host) (s : Shared) (c : BuildConfig) (u : PlannedUnit) :
    Shared × UnitResult :=
  s.runUnitBy host.write c u

variable {host : Host} {c : BuildConfig} {s : Shared} {t : Target} {u : PlannedUnit}
  {content : ByteArray}

/-- On a system that refuses nothing a unit goes as if there were no drafts. -/
theorem runUnitOn_eq (h : host.IsWilling) (s : Shared) (c : BuildConfig) (u : PlannedUnit) :
    s.runUnitOn host c u = s.runUnit c u := by
  have hwrite : host.write = Outputs.write := by
    funext o tree target root path source content
    exact h.write_eq o tree target root path source content
  rw [runUnitOn, hwrite, runUnit]

theorem makeDirectory_eq (s : Shared) (t : Target) (u : PlannedUnit) :
    s.makeDirectory t u =
      ({ s with tree := (Outputs.makeDirectory s.tree t.outputRoot u.outputPath).1 },
        (Outputs.makeDirectory s.tree t.outputRoot u.outputPath).2.mapError
          (unitError (s.source u).relative)) := by
  unfold makeDirectory
  split <;>
  · rename_i hmade
    rw [hmade]
    rfl

/-- An output file is written by claiming its path, making its directory and putting it in place. -/
theorem writeBy_eq (s : Shared) (t : Target) (u : PlannedUnit) (content : ByteArray) :
    s.writeBy Outputs.write t u content =
      match s.claim t u with
      | .error e => (s, .error e)
      | .ok s =>
        match s.makeDirectory t u with
        | (s, .error e) => (s, .error e)
        | (s, .ok ()) => s.place t u content := by
  rw [writeBy, Outputs.write, claim]
  cases s.outputs.claim t.id u.outputPath (s.source u).relative with
  | error e => rfl
  | ok outputs =>
    have hmake := makeDirectory_eq { s with outputs } t u
    dsimp only at hmake ⊢
    generalize Outputs.makeDirectory s.tree t.outputRoot u.outputPath = answer at hmake ⊢
    rw [hmake]
    obtain ⟨tree, e | _⟩ := answer
    · rfl
    · dsimp only [Except.mapError]
      unfold place
      cases Outputs.place tree t.outputRoot u.outputPath content <;> rfl

end Shared

namespace Worker

variable {c : BuildConfig} {units : List PlannedUnit} {s s' : Shared} {y : Tally} {i : Nat}
  {u : PlannedUnit}

/-- A worker takes every step that the rules allow. -/
theorem Step.step?_eq {phase : Phase} {event : Option Event} {w' : Worker}
    (h : Step c units s y phase event s' w') :
    Worker.step? c units s ⟨phase, y⟩ = some (s', w') := by
  cases h with
  | halt h | look h | take h | nothingLeft h => simp [step?, h]
  | convert hu h | convertFails hu h | claim hu h | claimFails hu h | makeDirectory hu h
  | makeDirectoryFails hu h | place hu h | placeFails hu h | release hu h => simp [step?, hu, h]
  | drop hu | record hu => simp [step?, hu]

/-- A worker takes a step. -/
def Alone (c : BuildConfig) (units : List PlannedUnit) (before after : Shared × Worker) : Prop :=
  before.2.step? c units before.1 = some after

/-- A worker that nobody disturbs works on its unit from beginning to end. -/
theorem runs_unit (hu : units[i]? = some u) :
    Relation.ReflTransGen (Alone c units) (s, ⟨.converting i, y⟩)
      ((s.runUnit c u).1, ⟨.releasing i (s.runUnit c u).2, y⟩) := by
  rw [Shared.runUnit, Shared.runUnitBy]
  rcases hconvert : s.convert c u with ⟨s₁, e | ⟨t, content⟩⟩
  · exact .single (Step.convertFails hu hconvert).step?_eq
  · refine .head (Step.convert hu hconvert).step?_eq ?_
    dsimp only
    rw [Shared.writeBy_eq]
    cases hclaim : s₁.claim t u with
    | error e => exact .single (Step.claimFails hu hclaim).step?_eq
    | ok s₂ =>
      refine .head (Step.claim hu hclaim).step?_eq ?_
      dsimp only
      rcases hmake : s₂.makeDirectory t u with ⟨s₃, e | _⟩
      · exact .single (Step.makeDirectoryFails hu hmake).step?_eq
      · refine .head (Step.makeDirectory hu hmake).step?_eq ?_
        dsimp only
        rcases hplace : s₃.place t u content with ⟨s₄, e | _⟩
        · exact .single (Step.placeFails hu hplace).step?_eq
        · exact .single (Step.place hu hplace).step?_eq

end Worker

/-! ### What a unit leaves that fails -/

namespace Shared

variable {host : Host} {c : BuildConfig} {s s' : Shared} {t : Target} {u : PlannedUnit}
  {content : ByteArray} {e : BuildError}

/-- Only while its output file is written can a unit fail that leaves anything: the claim of its
output path, and directories. -/
theorem left_of_runUnitOn_error (h : s.runUnitOn host c u = (s', .error e)) :
    s'.tree = s.tree ∧ s'.outputs = s.outputs ∨
    ∃ t content cause, (s.convert c u).2 = .ok (t, content) ∧
      s.outputs.claim t.id u.outputPath (s.source u).relative = .ok s'.outputs ∧
      s.tree.GainsDirectories s'.tree ∧
      e = .io (Outputs.destination t.outputRoot u.outputPath) cause := by
  rw [runUnitOn, runUnitBy] at h
  rcases hconvert : s.convert c u with ⟨read, e' | ⟨t, content⟩⟩ <;> rw [hconvert] at h
  · obtain ⟨rfl, -⟩ := Prod.mk.inj h
    rw [convert_frame hconvert]
    exact Or.inl ⟨rfl, rfl⟩
  -- reading and converting has touched neither the tree nor the claims
  · have hrelative : (read.source u).relative = (s.source u).relative :=
      ((sameFiles_convert hconvert).source_eq u).2
    have htree : read.tree = s.tree := by rw [convert_frame hconvert]
    have houtputs : read.outputs = s.outputs := by rw [convert_frame hconvert]
    simp only [writeBy, hrelative, htree, houtputs] at h
    split at h
    · simp at h
    · rename_i outputs tree cause hwrite
      obtain ⟨rfl, he⟩ := Prod.mk.inj h
      obtain rfl := Except.error.inj he
      cases Host.notWritten_of_write hwrite with
      | refused => exact Or.inl ⟨rfl, rfl⟩
      | stopped cause hclaim hgains => exact Or.inr ⟨t, content, cause, rfl, hclaim, hgains, rfl⟩

/-- A unit that fails, wherever it fails and whatever the system refuses, changes no file and leaves
none behind, no draft either, and counts nothing: nothing has changed in the tree but that
directories were made where nothing stood. Unless the error is that the system refused something
while the output file was written, no directory was made either, and no path is claimed that was
not. -/
theorem failed_unit_changes_no_file
    (h : s.runUnit c u = (s', .error e) ∨ s.runUnitOn host c u = (s', .error e)) :
    (∀ l, s'.tree.content? l = s.tree.content? l) ∧ s.tree.GainsDirectories s'.tree ∧
    s'.outputs.written = s.outputs.written ∧
    ((∃ t content cause, (s.convert c u).2 = .ok (t, content) ∧
        s.outputs.claim t.id u.outputPath (s.source u).relative = .ok s'.outputs ∧
        e = .io (Outputs.destination t.outputRoot u.outputPath) cause) ∨
      s'.tree = s.tree ∧ s'.outputs = s.outputs) := by
  -- without drafts a unit goes as on a system that refuses nothing
  have hleft : ∃ host, s.runUnitOn host c u = (s', .error e) := by
    rcases h with h | h
    · exact ⟨Host.willing, by rw [runUnitOn_eq Host.isWilling_willing, h]⟩
    · exact ⟨host, h⟩
  obtain ⟨host', h'⟩ := hleft
  rcases left_of_runUnitOn_error h' with
    ⟨htree, houtputs⟩ | ⟨t, content, cause, hconvert, hclaim, hgains, he⟩
  · exact ⟨fun l => by rw [htree], htree ▸ .refl s.tree, by rw [houtputs],
      Or.inr ⟨htree, houtputs⟩⟩
  · exact ⟨hgains.content?_eq, hgains, Outputs.written_of_claim hclaim,
      Or.inl ⟨t, content, cause, hconvert, hclaim, he⟩⟩

/-- A system without room. A single byte comes into a draft before it refuses to go on. -/
def fullDisk : Host :=
  { Host.willing with
    refusesContent? := fun _ _ content =>
      some (content.extract 0 1, .other "No space left on device (os error 28)") }

/-- A target whose one file is copied. -/
def oneCopied : BuildConfig := ⟨none, [Target.new "esm" ⟨"/src"⟩ ⟨"/out"⟩]⟩

/-- The unit for that file. -/
def copied : PlannedUnit := ⟨0, "esm", 0, [], ⟨"a.js"⟩, none⟩

/-- The work before the file is copied. -/
def copying : Shared :=
  ⟨⟨[(["src"], .directory), (["src", "a.js"], .file ⟨#[1, 2]⟩)], []⟩,
    [Source.new ⟨"/src/a.js"⟩ ⟨"a.js"⟩], Outputs.empty, 0, false⟩

/-- Where there is no room, a directory is made, and the draft in it is removed again. -/
theorem fullDisk_changes_no_file :
    let left := copying.runUnitOn fullDisk oneCopied copied
    left.2 = .error (.io ⟨"/out/a.js"⟩ (.other "No space left on device (os error 28)")) ∧
      left.1.tree.find? ["out"] = some .directory ∧
      (∀ l, left.1.tree.content? l = copying.tree.content? l) ∧
      copying.tree.GainsDirectories left.1.tree ∧ left.1.outputs.written = 0 := by
  intro left
  have herror : left.2 =
      .error (.io ⟨"/out/a.js"⟩ (.other "No space left on device (os error 28)")) := by
    decide +kernel
  have hfails : copying.runUnitOn fullDisk oneCopied copied =
      (left.1, .error (.io ⟨"/out/a.js"⟩ (.other "No space left on device (os error 28)"))) :=
    Prod.ext rfl herror
  obtain ⟨hcontent, hgains, hwritten, -⟩ := failed_unit_changes_no_file (Or.inr hfails)
  exact ⟨herror, by decide +kernel, hcontent, hgains, hwritten⟩

end Shared

end Filewise
