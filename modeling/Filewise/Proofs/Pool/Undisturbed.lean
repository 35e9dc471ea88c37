import Filewise.Proofs.Pool.Accounting
import Filewise.Proofs.Pool.Job

/-!
# Jobs are not disturbed

When jobs keep apart, no worker notices what the others do. Whatever a worker has found
out about a job so far, it would have found out as well if the job were the only one; this
is kept by each step of each worker, and hence by every run.

## Main definitions

* `AreJobs`: the jobs of the units that are worked on.
* `Shared.Undisturbed`, `Phase.Undisturbed`: what is known so far is what jobs come to on
  their own.
* `DisturbsNobody`: what is left after a step is undisturbed.

## Main results

* `Worker.Step.undisturbed`: a step keeps what is shared and its worker undisturbed.
* `Pool.Run.undisturbed`: this holds in every run.
-/

namespace Filewise

/-- The jobs of the units that are worked on keep apart. -/
structure AreJobs (c : BuildConfig) (units : List PlannedUnit) (first : Shared) (jobs : List Job) :
    Prop where
  units : units = jobs.map Job.unit
  fits : ∀ j ∈ jobs, j.Fits c first.sources
  apart : KeepApart first.tree jobs

/-- What is known of a source is nothing, or what reading it from a tree gives. -/
def Source.Knows (tree : Tree) (x : Source) : Prop :=
  x.content = .unread ∨ x.content = .released ∨ x.content = x.load tree

/-- What workers share is what the jobs that have been written leave, and sources and claims
are those of the jobs. -/
structure Shared.Undisturbed (s first : Shared) (jobs : List Job) (wrote : List Nat) :
    Prop where
  written : Written first.tree jobs wrote s.tree
  files : SameFiles first s
  knows : ∀ x ∈ s.sources, x.Knows first.tree
  claims : ∀ claim ∈ s.outputs.claims,
    ∃ j ∈ jobs, claim = ⟨j.target.id, j.unit.outputPath, j.source.relative⟩

/-- What a worker has found out about its job so far is what the job comes to on its own. -/
def Phase.Undisturbed (first : Shared) (jobs : List Job) (t : Tree) : Phase → Prop
  | .looking | .taking | .converting _ | .finished => True
  | .claiming i target content | .makingDirectory i target content =>
    ∃ j, jobs[i]? = some j ∧ j.target = target ∧
      j.unit.converted j.target j.source first.tree = .ok content
  | .placing i target content =>
    ∃ j, jobs[i]? = some j ∧ j.target = target ∧
      j.unit.converted j.target j.source first.tree = .ok content ∧
      (Outputs.makeDirectory first.tree target.outputRoot j.unit.outputPath).2 = .ok () ∧
      t.hasDirectory j.directory = true
  | .releasing i result | .dropping i result | .recording i result =>
    ∃ j, jobs[i]? = some j ∧ result = j.result first.tree

variable {c : BuildConfig} {units : List PlannedUnit} {first s s' : Shared} {jobs : List Job}
  {j : Job} {i : Nat} {u : PlannedUnit} {wrote : List Nat} {content : ByteArray}

theorem AreJobs.exists_job (h : AreJobs c units first jobs) (hu : units[i]? = some u) :
    ∃ j, jobs[i]? = some j ∧ j.unit = u := by
  rw [h.units, List.getElem?_map] at hu
  exact Option.map_eq_some_iff.mp hu

theorem AreJobs.getElem?_units (h : AreJobs c units first jobs) (hj : jobs[i]? = some j) :
    units[i]? = some j.unit := by
  rw [h.units, List.getElem?_map, hj, Option.map_some]

theorem AreJobs.source_eq (h : AreJobs c units first jobs) (hj : j ∈ jobs) :
    first.source j.unit = j.source := by
  rw [Shared.source, (h.fits j hj).source, Option.getD_some]

theorem AreJobs.unit_eq (h : AreJobs c units first jobs) (hu : units[i]? = some u)
    (hj : jobs[i]? = some j) : u = j.unit :=
  Option.some_inj.mp (hu.symm.trans (h.getElem?_units hj))

/-! ### Sources -/

namespace Source

variable {x y : Source} {tree t : Tree}

/-- What reading a file gives depends on where the file is. -/
theorem load_eq (habsolute : x.absolute = y.absolute)
    (hread : t.read y.absolute = tree.read y.absolute) : x.load t = y.load tree := by
  rw [load, load, habsolute, hread]

/-- Asking for the content of a source gives what there is to know. -/
theorem Knows.refreshed_eq (h : x.Knows tree) (hread : t.read x.absolute = tree.read x.absolute) :
    x.refreshed t = x.load tree := by
  have hload : x.load t = x.load tree := load_eq rfl hread
  unfold refreshed
  rcases h with h | h | h
  · rw [h, ← hload]
  · rw [h, ← hload]
  · rw [h]
    unfold load
    cases tree.read x.absolute <;> rfl

/-- A source that is known answers as one that nobody has read. -/
theorem Knows.read_eq (h : x.Knows tree) (hread : t.read x.absolute = tree.read x.absolute)
    (habsolute : x.absolute = y.absolute) (hunread : y.content = .unread) :
    (x.read t).2 = (y.read tree).2 := by
  have hy : y.refreshed tree = y.load tree := by rw [refreshed, hunread]
  have hload : x.load tree = y.load tree := load_eq habsolute rfl
  rw [Source.read, Source.read, h.refreshed_eq hread, hy, hload, habsolute]

/-- After asking, the content is what there is to know. -/
theorem Knows.read (h : x.Knows tree) (hread : t.read x.absolute = tree.read x.absolute) :
    ((x.read t).1).Knows tree :=
  Or.inr (Or.inr (h.refreshed_eq hread))

theorem Knows.drop (h : x.Knows tree) : x.drop.Knows tree := by
  unfold Source.drop
  split_ifs
  · exact Or.inr (Or.inl rfl)
  · exact h

end Source

/-- Changing one source, of which no more is known than there is to know, keeps the others. -/
theorem knows_modify {sources : List Source} {tree : Tree} {k : Nat} {f : Source → Source}
    (h : ∀ x ∈ sources, x.Knows tree)
    (hf : ∀ x, sources[k]? = some x → x.Knows tree → (f x).Knows tree) :
    ∀ x ∈ sources.modify k f, x.Knows tree := by
  intro x hx
  obtain ⟨l, hl⟩ := List.mem_iff_getElem?.mp hx
  rw [List.getElem?_modify] at hl
  obtain ⟨y, hy, rfl⟩ := Option.map_eq_some_iff.mp hl
  have hknows := h y (List.mem_of_getElem? hy)
  split_ifs with hk
  · subst hk
    exact hf y hy hknows
  · exact hknows

/-! ### Operations of workers -/

namespace Shared.Undisturbed

variable {i : Nat}

/-- The source of a job is the one that was planned. -/
theorem source_eq (h : s.Undisturbed first jobs wrote) (hjobs : AreJobs c units first jobs)
    (hj : j ∈ jobs) : (s.source j.unit).absolute = j.source.absolute ∧
      (s.source j.unit).relative = j.source.relative := by
  rw [← hjobs.source_eq hj]
  exact h.files.source_eq j.unit

theorem knows_source (h : s.Undisturbed first jobs wrote) (u : PlannedUnit) :
    (s.source u).Knows first.tree := by
  unfold Shared.source
  cases hx : s.sources[u.source]? with
  | none => exact Or.inl rfl
  | some x => exact h.knows x (List.mem_of_getElem? hx)

/-- A job finds its source as it was at the start. -/
theorem read_eq (h : s.Undisturbed first jobs wrote) (hjobs : AreJobs c units first jobs)
    (hj : j ∈ jobs) : s.tree.read (s.source j.unit).absolute =
      first.tree.read (s.source j.unit).absolute := by
  rw [(h.source_eq hjobs hj).1]
  exact h.written.read_eq hjobs.apart hj (hjobs.fits j hj)

/-- Reading the source of a job leaves what is shared undisturbed. -/
theorem read (h : s.Undisturbed first jobs wrote) (hjobs : AreJobs c units first jobs)
    (hj : j ∈ jobs) : (s.read j.unit).1.Undisturbed first jobs wrote := by
  refine ⟨h.written, h.files.trans ?_, ?_, h.claims⟩
  · exact SameFiles.of_modify (read_sources s j.unit) fun x => ⟨rfl, rfl⟩
  · rw [read_sources]
    refine knows_modify h.knows fun x hx hknows => hknows.read ?_
    have hsource : s.source j.unit = x := by rw [Shared.source, hx, Option.getD_some]
    exact hsource ▸ h.read_eq hjobs hj

/-- A job converts its source as it does on its own. -/
theorem convert {answer : Except BuildError (Target × ByteArray)}
    (h : s.Undisturbed first jobs wrote) (hjobs : AreJobs c units first jobs) (hj : j ∈ jobs)
    (hconvert : s.convert c j.unit = (s', answer)) :
    s'.Undisturbed first jobs wrote ∧
      answer = (j.target, ·) <$> j.unit.converted j.target j.source first.tree := by
  have hfits := hjobs.fits j hj
  -- the source can have been read, dropped or not read yet, but it always answers alike
  have hread : (s.read j.unit).2 = (j.source.read first.tree).2 :=
    (h.knows_source j.unit).read_eq (h.read_eq hjobs hj) (h.source_eq hjobs hj).1 hfits.unread
  have hafter := h.read hjobs hj
  unfold Shared.convert at hconvert
  unfold PlannedUnit.converted
  rw [hfits.targetOf_eq] at hconvert
  rcases hall : s.read j.unit with ⟨s₁, e | raw⟩ <;> rw [hall] at hconvert hread hafter <;>
    obtain ⟨rfl, rfl⟩ := Prod.mk.inj hconvert <;> rw [← hread]
  · exact ⟨hafter, rfl⟩
  · exact ⟨hafter, rfl⟩

/-- No claim of a job is refused. -/
theorem claim (h : s.Undisturbed first jobs wrote) (hjobs : AreJobs c units first jobs)
    (hj : jobs[i]? = some j) : ∃ s', s.claim j.target j.unit = .ok s' ∧ s'.tree = s.tree ∧
      s'.Undisturbed first jobs wrote := by
  have hmem := List.mem_of_getElem? hj
  have hrelative := (h.source_eq hjobs hmem).2
  unfold Shared.claim Outputs.claim
  dsimp only
  rw [hrelative]
  cases howner : s.outputs.owner? j.target.id j.unit.outputPath with
  | none =>
    refine ⟨_, rfl, rfl, h.written, h.files, h.knows, fun claim hclaim => ?_⟩
    rcases List.mem_append.mp hclaim with hclaim | hclaim
    · exact h.claims claim hclaim
    · exact ⟨j, hmem, List.mem_singleton.mp hclaim⟩
  | some owner =>
    -- the path can only have been claimed by the job itself
    obtain ⟨claim, hfind, rfl⟩ := Option.map_eq_some_iff.mp howner
    obtain ⟨k, hk, rfl⟩ := h.claims claim (List.mem_of_find?_eq_some hfind)
    obtain ⟨i', hk⟩ := List.mem_iff_getElem?.mp hk
    have hmatch := List.find?_some hfind
    simp only [Bool.and_eq_true, beq_iff_eq] at hmatch
    obtain rfl := hjobs.apart.eq_of_same hk hj hmatch.1 hmatch.2
    obtain rfl := Option.some_inj.mp (hk.symm.trans hj)
    simp only [Path.same_refl, if_true]
    exact ⟨_, rfl, rfl, h.written, h.files, h.knows, h.claims⟩

/-- The directory of a job is made as it is on its own. -/
theorem makeDirectory {result : UnitResult} (h : s.Undisturbed first jobs wrote)
    (hjobs : AreJobs c units first jobs) (hj : jobs[i]? = some j)
    (hmake : s.makeDirectory j.target j.unit = (s', result)) :
    s'.Undisturbed first jobs wrote ∧ Tree.Grows j.directory s.tree s'.tree ∧
      result = (Outputs.makeDirectory first.tree j.target.outputRoot j.unit.outputPath).2.mapError
        (unitError j.source.relative) ∧
      (result = .ok () → s'.tree.hasDirectory j.directory = true) := by
  have hmem := List.mem_of_getElem? hj
  have hfits := hjobs.fits j hmem
  have hgrows := Outputs.grows_makeDirectory h.written.closed hfits.destination
  have hdirectory := Outputs.hasDirectory_of_makeDirectory h.written.closed hfits.destination
  have heq := h.written.makeDirectory_eq hjobs.apart hj hfits
  unfold Shared.makeDirectory at hmake
  rw [(h.source_eq hjobs hmem).2] at hmake
  rw [← heq]
  rcases hmade : Outputs.makeDirectory s.tree j.target.outputRoot j.unit.outputPath with
    ⟨tree, e | _⟩ <;> rw [hmade] at hmake hgrows hdirectory <;>
    obtain ⟨rfl, rfl⟩ := Prod.mk.inj hmake
  · exact ⟨⟨h.written.grows hj hgrows, h.files, h.knows, h.claims⟩, hgrows, rfl, by simp⟩
  · exact ⟨⟨h.written.grows hj hgrows, h.files, h.knows, h.claims⟩, hgrows, rfl,
      fun _ => hdirectory rfl⟩

/-- Once its directory is made, the output of a job is put in place as it is on its own. -/
theorem place {result : UnitResult} (h : s.Undisturbed first jobs wrote)
    (hjobs : AreJobs c units first jobs) (hj : jobs[i]? = some j) (hi : i ∉ wrote)
    (hconverted : j.unit.converted j.target j.source first.tree = .ok content)
    (hmade : (Outputs.makeDirectory first.tree j.target.outputRoot j.unit.outputPath).2 = .ok ())
    (hdirectory : s.tree.hasDirectory j.directory = true)
    (hplace : s.place j.target j.unit content = (s', result)) :
    result = j.result first.tree ∧
      s'.Undisturbed first jobs (wrote ++ (writtenUnit? (i, result)).toList) ∧
      ∀ l, s.tree.hasDirectory l = true → s'.tree.hasDirectory l = true := by
  have hmem := List.mem_of_getElem? hj
  have hfits := hjobs.fits j hmem
  -- the outcome is settled first, as it says whether the tree has changed
  have hresult : result = j.result first.tree := by
    have heq := h.written.place_eq hjobs.apart hj hfits hi hdirectory hmade content content
    rw [Job.result_of_converted_ok hconverted, PlannedUnit.written_of_makeDirectory_ok hmade, ← heq]
    unfold Shared.place at hplace
    rw [(h.source_eq hjobs hmem).2] at hplace
    split at hplace <;> rename_i houtcome <;> rw [houtcome] <;> exact (Prod.mk.inj hplace).2.symm
  refine ⟨hresult, ?_⟩
  cases result with
  | error e =>
    obtain ⟨rfl, -⟩ := Shared.exists_of_placeFails hplace
    rw [show (writtenUnit? (i, .error e)).toList = [] from rfl, List.append_nil]
    exact ⟨h, fun _ => id⟩
  | ok a =>
    obtain ⟨tree, htree, rfl⟩ := Shared.exists_of_place hplace
    obtain ⟨rfl, -, hend⟩ := Outputs.eq_put_of_place hfits.destination htree
    have hok : j.outcome first.tree = .ok content := by
      rw [Job.outcome, PlannedUnit.outcome_of_converted_ok hconverted,
        ← Job.result_of_converted_ok hconverted, ← hresult]
      rfl
    have hne : j.destination ≠ [] := by simp [Job.destination]
    exact ⟨⟨h.written.put hj hok hdirectory hend, h.files, h.knows, h.claims⟩,
      fun _ => Tree.hasDirectory_put _ hne hend⟩

/-- Letting go of a source leaves what is shared undisturbed. -/
theorem release {isLast : Bool} (h : s.Undisturbed first jobs wrote)
    (hrelease : s.release u = (s', isLast)) : s'.Undisturbed first jobs wrote := by
  have hfiles := h.files.trans (sameFiles_release hrelease)
  obtain ⟨rfl, -⟩ := Prod.mk.inj hrelease
  exact ⟨h.written, hfiles, knows_modify h.knows fun _ _ hknows => hknows, h.claims⟩

/-- Dropping a source leaves what is shared undisturbed. -/
theorem drop (h : s.Undisturbed first jobs wrote) (u : PlannedUnit) :
    (s.drop u).Undisturbed first jobs wrote :=
  ⟨h.written, h.files.trans (sameFiles_drop s u),
    knows_modify h.knows fun _ _ hknows => hknows.drop, h.claims⟩

end Shared.Undisturbed

/-! ### Steps -/

/-- What a worker has found out stays true as long as directories stay. -/
theorem Phase.Undisturbed.mono {phase : Phase} {t t' : Tree} (h : phase.Undisturbed first jobs t)
    (hdirectories : ∀ l, t.hasDirectory l = true → t'.hasDirectory l = true) :
    phase.Undisturbed first jobs t' := by
  cases phase with
  | placing i target content =>
    obtain ⟨j, hj, htarget, hconverted, hmade, hdirectory⟩ := h
    exact ⟨j, hj, htarget, hconverted, hmade, hdirectories _ hdirectory⟩
  | _ => exact h

/-- How a unit is taken down is how its job goes on its own. -/
def Event.Undisturbed (first : Shared) (jobs : List Job) : Event → Prop
  | .recorded i result => ∃ j, jobs[i]? = some j ∧ result = j.result first.tree
  | _ => True

/-- What holds after a step: what is shared and the worker that took the step are undisturbed,
no directory is gone, and what happened would have happened to the job on its own. -/
structure DisturbsNobody (first : Shared) (jobs : List Job) (wrote : List Nat) (s s' : Shared)
    (phase : Phase) (event : Option Event) : Prop where
  shared : s'.Undisturbed first jobs (wrote ++ (event.bind Event.wrote?).toList)
  phase : phase.Undisturbed first jobs s'.tree
  directories : ∀ l, s.tree.hasDirectory l = true → s'.tree.hasDirectory l = true
  event : ∀ e ∈ event, e.Undisturbed first jobs

namespace DisturbsNobody

variable {phase : Phase} {event : Option Event} {t : Target} {e : BuildError}

/-- A step that puts nothing in place leaves as many jobs written as before. -/
theorem of_wrote?_eq_none (hevent : event.bind Event.wrote? = none)
    (hs' : s'.Undisturbed first jobs wrote) (hphase : phase.Undisturbed first jobs s'.tree)
    (hdirectories : ∀ l, s.tree.hasDirectory l = true → s'.tree.hasDirectory l = true)
    (hrecorded : ∀ e ∈ event, e.Undisturbed first jobs) :
    DisturbsNobody first jobs wrote s s' phase event := by
  refine ⟨?_, hphase, hdirectories, hrecorded⟩
  rwa [hevent, Option.toList_none, List.append_nil]

/-- So does one at which nothing happens to a unit and the tree stays the same. -/
theorem of_tree_eq (htree : s'.tree = s.tree) (hs' : s'.Undisturbed first jobs wrote)
    (hphase : phase.Undisturbed first jobs s.tree) :
    DisturbsNobody first jobs wrote s s' phase none :=
  of_wrote?_eq_none rfl hs' (htree ▸ hphase) (fun _ => htree ▸ id) (by simp)

theorem convert (hjobs : AreJobs c units first jobs) (hs : s.Undisturbed first jobs wrote)
    (hu : units[i]? = some u) (hconvert : s.convert c u = (s', .ok (t, content))) :
    DisturbsNobody first jobs wrote s s' (.claiming i t content) none := by
  obtain ⟨j, hj, rfl⟩ := hjobs.exists_job hu
  obtain ⟨hs', hanswer⟩ := hs.convert hjobs (List.mem_of_getElem? hj) hconvert
  refine of_tree_eq (by rw [Shared.convert_frame hconvert]) hs' ?_
  cases hconverted : j.unit.converted j.target j.source first.tree with
  | error e => simp [hconverted] at hanswer
  | ok raw =>
    rw [hconverted] at hanswer
    obtain ⟨rfl, rfl⟩ := Prod.mk.inj (Except.ok.inj hanswer)
    exact ⟨j, hj, rfl, hconverted⟩

theorem convertFails (hjobs : AreJobs c units first jobs) (hs : s.Undisturbed first jobs wrote)
    (hu : units[i]? = some u) (hconvert : s.convert c u = (s', .error e)) :
    DisturbsNobody first jobs wrote s s' (.releasing i (.error e)) none := by
  obtain ⟨j, hj, rfl⟩ := hjobs.exists_job hu
  obtain ⟨hs', hanswer⟩ := hs.convert hjobs (List.mem_of_getElem? hj) hconvert
  refine of_tree_eq (by rw [Shared.convert_frame hconvert]) hs' ?_
  cases hconverted : j.unit.converted j.target j.source first.tree with
  | error e =>
    rw [hconverted] at hanswer
    obtain rfl := Except.error.inj hanswer
    exact ⟨j, hj, (Job.result_of_converted_error hconverted).symm⟩
  | ok raw => simp [hconverted] at hanswer

theorem claim (hjobs : AreJobs c units first jobs) (hs : s.Undisturbed first jobs wrote)
    (hphase : (Phase.claiming i t content).Undisturbed first jobs s.tree)
    (hu : units[i]? = some u) (hclaim : s.claim t u = .ok s') :
    DisturbsNobody first jobs wrote s s' (.makingDirectory i t content) none := by
  obtain ⟨j, hj, rfl, hconverted⟩ := hphase
  obtain rfl := hjobs.unit_eq hu hj
  obtain ⟨s'', hclaim', htree, hs'⟩ := hs.claim hjobs hj
  obtain rfl := Except.ok.inj (hclaim.symm.trans hclaim')
  exact of_tree_eq htree hs' ⟨j, hj, rfl, hconverted⟩

/-- The claim of a job is not refused. -/
theorem claim_ne_error (hjobs : AreJobs c units first jobs) (hs : s.Undisturbed first jobs wrote)
    (hphase : (Phase.claiming i t content).Undisturbed first jobs s.tree)
    (hu : units[i]? = some u) : s.claim t u ≠ .error e := by
  obtain ⟨j, hj, rfl, -⟩ := hphase
  obtain rfl := hjobs.unit_eq hu hj
  obtain ⟨s', hclaim, -, -⟩ := hs.claim hjobs hj
  simp [hclaim]

theorem makeDirectory (hjobs : AreJobs c units first jobs) (hs : s.Undisturbed first jobs wrote)
    (hphase : (Phase.makingDirectory i t content).Undisturbed first jobs s.tree)
    (hu : units[i]? = some u) (hmake : s.makeDirectory t u = (s', .ok ())) :
    DisturbsNobody first jobs wrote s s' (.placing i t content) none := by
  obtain ⟨j, hj, rfl, hconverted⟩ := hphase
  obtain rfl := hjobs.unit_eq hu hj
  obtain ⟨hs', hgrows, hresult, hdirectory⟩ := hs.makeDirectory hjobs hj hmake
  refine of_wrote?_eq_none rfl hs' ⟨j, hj, rfl, hconverted, ?_, hdirectory rfl⟩
    (fun _ => hgrows.hasDirectory) (by simp)
  cases hmade : (Outputs.makeDirectory first.tree j.target.outputRoot j.unit.outputPath).2 with
  | error cause => simp [hmade, Except.mapError] at hresult
  | ok _ => rfl

theorem makeDirectoryFails (hjobs : AreJobs c units first jobs)
    (hs : s.Undisturbed first jobs wrote)
    (hphase : (Phase.makingDirectory i t content).Undisturbed first jobs s.tree)
    (hu : units[i]? = some u) (hmake : s.makeDirectory t u = (s', .error e)) :
    DisturbsNobody first jobs wrote s s' (.releasing i (.error e)) none := by
  obtain ⟨j, hj, rfl, hconverted⟩ := hphase
  obtain rfl := hjobs.unit_eq hu hj
  obtain ⟨hs', hgrows, hresult, -⟩ := hs.makeDirectory hjobs hj hmake
  refine of_wrote?_eq_none rfl hs' ⟨j, hj, ?_⟩ (fun _ => hgrows.hasDirectory) (by simp)
  cases hmade : (Outputs.makeDirectory first.tree j.target.outputRoot j.unit.outputPath).2 with
  | error cause =>
    rw [hresult, hmade, Job.result_of_converted_ok hconverted,
      PlannedUnit.written_of_makeDirectory_error hmade]
    rfl
  | ok _ => simp [hmade, Except.mapError] at hresult

/-- Whether or not the output of a job is put in place, this is how the job goes on its own. -/
theorem place {result : UnitResult} (hjobs : AreJobs c units first jobs)
    (hs : s.Undisturbed first jobs wrote)
    (hphase : (Phase.placing i t content).Undisturbed first jobs s.tree) (hi : i ∉ wrote)
    (hu : units[i]? = some u) (hplace : s.place t u content = (s', result))
    (hwrote : event.bind Event.wrote? = writtenUnit? (i, result))
    (hrecorded : ∀ e ∈ event, e.Undisturbed first jobs) :
    DisturbsNobody first jobs wrote s s' (.releasing i result) event := by
  obtain ⟨j, hj, rfl, hconverted, hmade, hdirectory⟩ := hphase
  obtain rfl := hjobs.unit_eq hu hj
  obtain ⟨hresult, hs', hdirectories⟩ := hs.place hjobs hj hi hconverted hmade hdirectory hplace
  exact ⟨hwrote ▸ hs', ⟨j, hj, hresult⟩, hdirectories, hrecorded⟩

theorem release {result : UnitResult} {isLast : Bool} (hs : s.Undisturbed first jobs wrote)
    (hphase : (Phase.releasing i result).Undisturbed first jobs s.tree)
    (hrelease : s.release u = (s', isLast)) : DisturbsNobody first jobs wrote s s'
      (if isLast then .dropping i result else .recording i result) none := by
  refine of_tree_eq (by rw [Shared.release_frame hrelease]) (hs.release hrelease) ?_
  split_ifs <;> exact hphase

/-- Taking down how a job went, which is how it goes on its own, changes at most whether
workers go on. -/
theorem record {result : UnitResult} (hs : s.Undisturbed first jobs wrote)
    (hphase : (Phase.recording i result).Undisturbed first jobs s.tree) :
    DisturbsNobody first jobs wrote s (s.haltAfter result) .looking
      (some (.recorded i result)) := by
  rw [Shared.haltAfter_frame s]
  refine of_wrote?_eq_none rfl ⟨hs.written, hs.files, hs.knows, hs.claims⟩ trivial (fun _ => id) ?_
  rintro _ ⟨⟩
  exact hphase

end DisturbsNobody

/-- A step of a worker that is not disturbed, at a job that is not written yet if it is still
to be written, disturbs nobody. -/
theorem Worker.Step.undisturbed {y : Tally} {phase : Phase} {event : Option Event} {w' : Worker}
    (h : Worker.Step c units s y phase event s' w') (hjobs : AreJobs c units first jobs)
    (hs : s.Undisturbed first jobs wrote) (hphase : phase.Undisturbed first jobs s.tree)
    (hnew : ∀ i, phase.unit? = some i → phase.result? = none → i ∉ wrote) :
    DisturbsNobody first jobs wrote s s' w'.phase event := by
  -- one case for each rule; how a job goes on its own is what the worker finds out
  cases h with
  | halt _ | look _ => exact .of_tree_eq rfl hs trivial
  | take _ =>
    exact .of_wrote?_eq_none rfl ⟨hs.written, hs.files, hs.knows, hs.claims⟩ trivial (fun _ => id)
      (by simp [Event.Undisturbed])
  | nothingLeft _ => exact .of_tree_eq rfl ⟨hs.written, hs.files, hs.knows, hs.claims⟩ trivial
  | convert hu hconvert => exact .convert hjobs hs hu hconvert
  | convertFails hu hconvert => exact .convertFails hjobs hs hu hconvert
  | claim hu hclaim => exact .claim hjobs hs hphase hu hclaim
  | claimFails hu hclaim =>
    exact absurd hclaim (DisturbsNobody.claim_ne_error hjobs hs hphase hu)
  | makeDirectory hu hmake => exact .makeDirectory hjobs hs hphase hu hmake
  | makeDirectoryFails hu hmake => exact .makeDirectoryFails hjobs hs hphase hu hmake
  | place hu hplace =>
    exact .place hjobs hs hphase (hnew _ rfl rfl) hu hplace rfl (by simp [Event.Undisturbed])
  | placeFails hu hplace =>
    exact .place hjobs hs hphase (hnew _ rfl rfl) hu hplace rfl (by simp)
  | release hu hrelease => exact .release hs hphase hrelease
  | drop hu => exact .of_tree_eq rfl (hs.drop _) hphase
  | record hu => exact .record hs hphase

/-! ### Runs -/

namespace Pool

variable {pool next : Pool} {worker workers : Nat} {schedule : List Nat} {log : List Event}
  {p : Plan} {tree : Tree}

/-- Nobody is disturbed, and nobody was when a unit was taken down. -/
structure Undisturbed (first : Shared) (jobs : List Job) (log : List Event) (pool : Pool) :
    Prop where
  shared : pool.shared.Undisturbed first jobs (log.filterMap Event.wrote?)
  workers : ∀ w ∈ pool.workers, w.phase.Undisturbed first jobs pool.shared.tree
  events : ∀ e ∈ log, e.Undisturbed first jobs

/-- A step disturbs nobody. -/
theorem Undisturbed.step (h : Undisturbed first jobs log pool) (hjobs : AreJobs c units first jobs)
    {start : Pool} (hbooks : Accounted units start log pool)
    (hstep : pool.step? c units worker = some next) :
    Undisturbed first jobs (log ++ (pool.event? units worker).toList) next := by
  obtain ⟨w, w', hw, hworkers, hstep⟩ := exists_of_step? hstep
  -- by the books, a unit that a worker has yet to write was not written before
  have hnew : ∀ i, w.phase.unit? = some i → w.phase.result? = none →
      i ∉ log.filterMap Event.wrote? := fun i => hbooks.notMem_wrote hw
  have hafter := hstep.undisturbed hjobs h.shared (h.workers w (List.mem_of_getElem? hw)) hnew
  refine ⟨?_, fun v hv => ?_, fun e he => ?_⟩
  · rw [filterMap_append_toList]
    exact hafter.shared
  · rw [hworkers] at hv
    rcases List.mem_or_eq_of_mem_set hv with hv | rfl
    · exact (h.workers v hv).mono hafter.directories
    · exact hafter.phase
  · rcases List.mem_append.mp he with he | he
    · exact h.events e he
    · exact hafter.event e (Option.mem_toList.mp he)

/-- Nobody is disturbed before the first step. -/
theorem undisturbed_start (hjobs : AreJobs c p.units (start workers p tree).shared jobs)
    (hfresh : ∀ x ∈ p.sources, x.content = .unread) :
    Undisturbed (start workers p tree).shared jobs [] (start workers p tree) := by
  refine ⟨⟨Written.start hjobs.apart, Shared.SameFiles.refl _, fun x hx => ?_, ?_⟩,
    fun w hw => ?_, ?_⟩
  · exact Or.inl (hfresh x hx)
  · simp [start, Outputs.empty]
  · rw [List.eq_of_mem_replicate hw]
    exact trivial
  · simp

/-- Nobody is ever disturbed. -/
theorem Run.undisturbed (h : Run c p.units (Pool.start workers p tree) schedule log pool)
    (hjobs : AreJobs c p.units (Pool.start workers p tree).shared jobs)
    (hfresh : ∀ x ∈ p.sources, x.content = .unread) :
    Undisturbed (Pool.start workers p tree).shared jobs log pool := by
  induction h with
  | start => exact undisturbed_start hjobs hfresh
  | step hrun hstep ih => exact ih.step hjobs hrun.accounted hstep

end Pool

end Filewise
