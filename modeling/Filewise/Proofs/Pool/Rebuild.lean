import Filewise.Proofs.Plan.Unchanged
import Filewise.Proofs.Pool.Schedule

/-!
# Building again

Whoever builds a separated project again, on what a build has left, plans the same: what was
written lies under output roots, and these are left out wherever they lie inside a source
root. Each unit then goes as it went before, over the file that it has left, so that no file
changes and the report is the same.

## Main definitions

* `Project.IsStable`: building again changes nothing.
* `Project.ended`: the end of the work on a plan.

## Main results

* `Pool.Run.wellFormed`: work keeps a tree well-formed.
* `Project.IsSeparated.plan_again`: what a build has left is planned alike.
* `Project.IsSeparated.isStable`: building again changes nothing.
-/

namespace Filewise

/-! ### Work keeps trees well-formed -/

section WellFormed

variable {c : BuildConfig} {units : List PlannedUnit} {s s' : Shared} {u : PlannedUnit}
  {t : Target} {result : UnitResult} {content : ByteArray}

theorem Shared.wellFormed_makeDirectory (h : s.tree.WellFormed)
    (hmake : s.makeDirectory t u = (s', result)) : s'.tree.WellFormed := by
  have hmade := Outputs.wellFormed_makeDirectory h t.outputRoot u.outputPath
  unfold Shared.makeDirectory at hmake
  split at hmake <;> rename_i heq <;> rw [heq] at hmade <;> obtain ⟨rfl, -⟩ := Prod.mk.inj hmake
  · exact hmade
  · exact hmade

theorem Shared.wellFormed_place (h : s.tree.WellFormed)
    (hplace : s.place t u content = (s', result)) : s'.tree.WellFormed := by
  cases result with
  | ok _ =>
    obtain ⟨tree, htree, rfl⟩ := Shared.exists_of_place hplace
    exact Outputs.wellFormed_place h htree
  | error e =>
    obtain ⟨rfl, -⟩ := Shared.exists_of_placeFails hplace
    exact h

/-- A step of a worker keeps the tree well-formed. -/
theorem Worker.Step.wellFormed {y : Tally} {phase : Phase} {event : Option Event} {w' : Worker}
    (hstep : Worker.Step c units s y phase event s' w') (h : s.tree.WellFormed) :
    s'.tree.WellFormed := by
  -- only two operations touch the tree, and a failure can leave directories behind
  cases hstep with
  | halt _ | look _ | take _ | nothingLeft _ | claimFails _ _ | drop _ => exact h
  | convert _ hconvert | convertFails _ hconvert =>
    rw [Shared.convert_frame hconvert]
    exact h
  | claim _ hclaim =>
    rw [Shared.claim_frame hclaim]
    exact h
  | makeDirectory _ hmake | makeDirectoryFails _ hmake =>
    exact Shared.wellFormed_makeDirectory h hmake
  | place _ hplace | placeFails _ hplace => exact Shared.wellFormed_place h hplace
  | release _ hrelease =>
    rw [Shared.release_frame hrelease]
    exact h
  | record _ =>
    rw [Shared.haltAfter_frame s]
    exact h

/-- Work keeps the tree well-formed. -/
theorem Pool.Run.wellFormed {first pool : Pool} {schedule : List Nat} {log : List Event}
    (hrun : Pool.Run c units first schedule log pool) (h : first.shared.tree.WellFormed) :
    pool.shared.tree.WellFormed := by
  induction hrun with
  | start => exact h
  | step _ hstep ih =>
    obtain ⟨w, w', -, -, hrules⟩ := Pool.exists_of_step? hstep
    exact hrules.wellFormed ih

end WellFormed

namespace Project

variable {project : Project} {tree after t t' : Tree} {target : Target} {sources : List Source}
  {jobs : List Job} {j : Job} {wrote : List Nat} {log : List Event} {pool : Pool} {p : Plan}

/-! ### What was written is not looked at -/

/-- The destination of a job of a plan lies at or under the output root of its target. -/
theorem IsSeparated.exists_outputRoot [Schema.Compiler] (h : project.IsSeparated tree)
    (hj : j.Fits project.config sources) (hunit : j.unit ∈ (project.plan tree).units) :
    ∃ root : Location, j.target.outputRoot.components = .root :: root.map .name ∧
      root <+: j.destination := by
  have hplain := (h.plain _ (List.mem_of_getElem? hj.target?)).2
  obtain ⟨_, _, hplanned⟩ := (project.isPlan_plan h.wellFormed).planned _ hunit
  have hcomponents :=
    components_destinationIn hplain.1 (hplanned.isOutput h.wellFormed).relative
  obtain ⟨root, hroot⟩ := hplain.exists_names
  refine ⟨root, hroot, (Path.startsWith_iff_of_names hj.destination hroot).mp ?_⟩
  rw [Path.startsWith_iff]
  exact ⟨_, hcomponents.symm⟩

/-- No output root lies at or above a source root. -/
theorem IsSeparated.not_outputRoot_prefix [Schema.Compiler] (h : project.IsSeparated tree)
    {target' : Target} {root root' : Location} (htarget : target ∈ project.config.targets)
    (htarget' : target' ∈ project.config.targets)
    (houtput : target.outputRoot.components = .root :: root.map .name)
    (hsource : target'.sourceRoot.components = .root :: root'.map .name) : ¬root <+: root' := by
  intro hpre
  have hstarts := (Path.startsWith_iff_of_names hsource houtput).mpr hpre
  rw [h.outside target htarget target' htarget'] at hstarts
  simp at hstarts

/-- What jobs have left looks to each target like what was there, if its source root is a
directory. -/
theorem IsSeparated.seesAlike [Schema.Compiler] (h : project.IsSeparated tree)
    (hwritten : Written tree jobs wrote after)
    (hfits : ∀ j ∈ jobs, j.Fits project.config sources ∧ j.unit ∈ (project.plan tree).units)
    (htarget : target ∈ project.config.targets)
    (hdirectory : tree.isDirectory target.sourceRoot = true) :
    target.SeesAlike project.skip tree after := by
  have hplain := (h.plain _ htarget).1
  obtain ⟨root, hroot⟩ := hplain.exists_names
  have hroot' := Tree.hasDirectory_of_isDirectory hroot hdirectory
  have hleads : ∀ place, tree.resolve target.sourceRoot = .ok place → place = root := by
    intro place hplace
    rw [Tree.eq_location_of_resolve hplain.1 hplace, Path.location_eq hroot]
  -- on the way to the source root nothing was written, and nothing was missing
  have habove : ∀ l, l <+: root → after.find? l = tree.find? l := by
    intro l hl
    have hsome := h.wellFormed.toClosed.hasDirectory_above hroot' hl
    rcases hwritten.cases l with ⟨heq, -⟩ | ⟨i, -, j, content, hj, rfl, -⟩ | ⟨hnone, -⟩
    · exact heq
    · obtain ⟨hj, hunit⟩ := hfits j (List.mem_of_getElem? hj)
      obtain ⟨outputRoot, houtput, hpre⟩ := h.exists_outputRoot hj hunit
      have hmem := List.mem_of_getElem? hj.target?
      exact absurd (hpre.trans hl) (h.not_outputRoot_prefix hmem htarget houtput hroot)
    · rw [Tree.hasDirectory_iff.mp hsome] at hnone
      simp at hnone
  refine ⟨?_, fun place hplace => ?_, fun place names hplace hnames hkept => ?_⟩
  · exact Tree.resolve_congr hroot fun l hl => Tree.SameKind.of_eq (habove l hl).symm
  · rw [hleads place hplace, Tree.hasDirectory, Tree.hasDirectory, habove root List.prefix_rfl]
  · rw [hleads place hplace]
    rcases hwritten.cases (root ++ names) with ⟨heq, -⟩ | ⟨i, -, j, content, hj, hlocation, -⟩ |
      ⟨hnone, hmade, -⟩
    · rw [Tree.hasFile, Tree.hasFile, heq]
    · -- what was written has to be skipped
      obtain ⟨hj, hunit⟩ := hfits j (List.mem_of_getElem? hj)
      obtain ⟨outputRoot, houtput, hpre⟩ := h.exists_outputRoot hj hunit
      have hmem := List.mem_of_getElem? hj.target?
      have hskip : j.target.outputRoot ∈ project.skip := List.mem_map.mpr ⟨_, hmem, rfl⟩
      have hskipped := isSkipped_of_prefix hnames hskip hroot houtput
        (h.not_outputRoot_prefix hmem htarget houtput hroot) (hlocation ▸ hpre)
      rw [hkept] at hskipped
      simp at hskipped
    · rw [Tree.hasFile_of_none hnone,
        Tree.hasFile_of_hasDirectory (Tree.hasDirectory_iff.mpr hmade)]

/-! ### Units go as they went before -/

variable {started finished : Instant}

/-- Whoever builds on what was built before, with each unit going as it went then, changes no
file. -/
theorem IsBuilt.contentAt?_again (h : project.IsBuilt p tree t) (h' : project.IsBuilt p t t')
    (houtcome : ∀ u ∈ p.units, project.outcome p t u = project.outcome p tree u) (l : Location) :
    t'.contentAt? l = t.contentAt? l := by
  by_cases hwritten : ∃ u ∈ p.units, ∃ target content,
      project.config.targets[u.targetIndex]? = some target ∧
      project.outcome p t u = .ok content ∧ (u.destinationIn target).location = l
  · -- the unit writes what it wrote before
    obtain ⟨u, hu, target, content, htarget, hok, rfl⟩ := hwritten
    have hok' := (houtcome u hu).symm.trans hok
    rw [h'.written u hu target content htarget hok, h.written u hu target content htarget hok']
  · push Not at hwritten
    exact h'.other l hwritten

/-- If each unit goes as it went before, the report is the same. -/
theorem reportAlone_congr
    (houtcome : ∀ u ∈ p.units, project.outcome p t u = project.outcome p tree u) :
    project.reportAlone p t started finished = project.reportAlone p tree started finished := by
  have hcount : ∀ f : PlannedUnit → Bool,
      p.units.countP (fun u => (project.outcome p t u).isOk && f u) =
        p.units.countP fun u => (project.outcome p tree u).isOk && f u := by
    intro f
    apply List.countP_congr
    intro u hu
    rw [houtcome u hu]
  have hfailures : p.units.filterMap (project.failure? p t) =
      p.units.filterMap (project.failure? p tree) := by
    apply List.filterMap_congr
    intro u hu
    rw [failure?, failure?, houtcome u hu]
  unfold reportAlone
  rw [hcount, hcount, hfailures]

/-- After a build each unit goes as it went before, over the file that it has left. -/
theorem outcome_again
    (h : Pool.IsDone project.config p.units (Pool.start project.workers p tree) jobs log pool) :
    ∀ u ∈ p.units, project.outcome p pool.shared.tree u = project.outcome p tree u := by
  intro u hu
  rw [h.areJobs.units] at hu
  obtain ⟨j, hj, rfl⟩ := List.mem_map.mp hu
  obtain ⟨i, hi⟩ := List.mem_iff_getElem?.mp hj
  have hfits := h.areJobs.fits j hj
  rw [outcome_eq hfits, outcome_eq hfits]
  exact h.undisturbed.shared.written.outcome_eq h.areJobs.apart hi hfits

/-! ### Building again -/

/-- Building again what work has left, with any number of workers that take their steps in any
order, plans the same, comes to an end, changes no file and gives the same report. -/
structure IsStable [Schema.Compiler] (project : Project) (tree : Tree) (pool : Pool) : Prop where
  plan_eq : project.plan pool.shared.tree = project.plan tree
  bounded : ∀ workers, ∃ bound, ∀ schedule log again, Pool.Run project.config
    (project.plan pool.shared.tree).units
    (Pool.start workers (project.plan pool.shared.tree) pool.shared.tree) schedule log again →
      schedule.length ≤ bound
  contents : ∀ workers log again, (project.withWorkers workers).EndsIn
    (project.plan pool.shared.tree) pool.shared.tree log again →
      ∀ l, again.shared.tree.contentAt? l = pool.shared.tree.contentAt? l
  report_eq : ∀ workers log again, (project.withWorkers workers).EndsIn
    (project.plan pool.shared.tree) pool.shared.tree log again →
      ∀ started finished, report (project.plan pool.shared.tree) again started finished =
        report (project.plan tree) pool started finished

/-- The work on a plan when it has ended in the order that is carried out. -/
def ended [Schema.Compiler] (project : Project) (tree : Tree) : Pool :=
  (Pool.start project.workers (project.plan tree) tree).run project.config
    (project.plan tree).units

namespace IsSeparated

variable [Schema.Compiler] (h : project.IsSeparated tree)
  (hroots : ∀ t ∈ project.config.targets, tree.isDirectory t.sourceRoot = true)
  (hnamed : ∀ u ∈ (project.plan tree).units, u.outputPath.IsNamed)
  (hworkers : 0 < project.workers) (hend : project.EndsIn (project.plan tree) tree log pool)

include h hroots hnamed hworkers hend

/-- What a build has left is well-formed and planned alike. -/
theorem plan_again : pool.shared.tree.WellFormed ∧
    project.plan pool.shared.tree = project.plan tree := by
  obtain ⟨⟨schedule, hrun⟩, -⟩ := id hend
  have hwellFormed : pool.shared.tree.WellFormed := hrun.wellFormed h.wellFormed
  obtain ⟨jobs, hdone⟩ := h.exists_isDone hnamed hworkers hend
  refine ⟨hwellFormed, (plan_congr h.wellFormed hwellFormed fun t ht => ?_).symm⟩
  refine h.seesAlike hdone.undisturbed.shared.written (fun j hj => ⟨hdone.areJobs.fits j hj, ?_⟩)
    ht (hroots t ht)
  rw [hdone.areJobs.units]
  exact List.mem_map_of_mem hj

/-- What a build has left keeps roots and outputs apart, whoever builds it again. -/
theorem again (workers : Nat) : (project.withWorkers workers).IsSeparated pool.shared.tree := by
  obtain ⟨hwellFormed, hplan⟩ := h.plan_again hroots hnamed hworkers hend
  refine ⟨h.valid, hwellFormed, h.plain, h.outside, h.outputs, h.sources, ?_⟩
  have hnested := h.nested
  rw [← hplan] at hnested
  exact hnested

/-- Whoever builds again builds on what was left, and each unit goes as it goes there on its
own. -/
theorem built_again {workers : Nat} {log' : List Event} {again : Pool}
    (hend' : (project.withWorkers workers).EndsIn (project.plan pool.shared.tree)
      pool.shared.tree log' again) :
    project.IsBuilt (project.plan tree) pool.shared.tree again.shared.tree ∧
      ∀ started finished, report (project.plan tree) again started finished =
        project.reportAlone (project.plan tree) pool.shared.tree started finished := by
  -- the second build is that of a separated project, too, so it is done undisturbed
  obtain ⟨-, hplan⟩ := h.plan_again hroots hnamed hworkers hend
  have hseparated := h.again hroots hnamed hworkers hend workers
  have hplan' : (project.withWorkers workers).plan pool.shared.tree = project.plan tree := hplan
  obtain ⟨jobs, hdone⟩ := hseparated.exists_isDone (by rwa [hplan']) (Nat.le_max_right _ _) hend'
  have hfailures := hseparated.pairwise_failure?
  rw [hplan'] at hdone hfailures
  have hbuilt := isBuilt_of_isDone hdone
  have hreport : ∀ started finished, report (project.plan tree) again started finished =
      (project.withWorkers workers).reportAlone (project.plan tree) pool.shared.tree started
        finished := fun started finished => report_of_isDone hdone hfailures
  -- how units go on their own does not depend on the number of workers
  exact ⟨⟨hbuilt.written, hbuilt.other⟩, hreport⟩

/-- Building a separated project again changes nothing, if its source roots are directories and
its output paths are made of names. -/
theorem isStable : project.IsStable tree pool := by
  obtain ⟨-, hplan⟩ := h.plan_again hroots hnamed hworkers hend
  obtain ⟨jobs, hdone⟩ := h.exists_isDone hnamed hworkers hend
  have houtcome := outcome_again hdone
  refine ⟨hplan, fun workers => ⟨_, fun schedule log again hrun =>
    (Nat.le_add_right _ _).trans hrun.length_add_remaining_le⟩, ?_, ?_⟩
  · intro workers log again hend'
    obtain ⟨hbuilt, -⟩ := h.built_again hroots hnamed hworkers hend hend'
    exact (isBuilt_of_isDone hdone).contentAt?_again hbuilt houtcome
  · intro workers log again hend' started finished
    obtain ⟨-, hreport⟩ := h.built_again hroots hnamed hworkers hend hend'
    rw [hplan, hreport, reportAlone_congr houtcome,
      ← report_of_isDone hdone h.pairwise_failure?]

end IsSeparated

theorem twoWorkers_isStable :
    (twoWorkers.ended oneFileTree).shared.tree.contentAt? ["src", "esm", "a.js"] = some ⟨#[65]⟩ ∧
      twoWorkers.IsStable oneFileTree (twoWorkers.ended oneFileTree) := by
  have hseparated : twoWorkers.IsSeparated oneFileTree := by
    constructor <;> decide +kernel
  obtain ⟨log, hend⟩ := exists_endsIn_run twoWorkers (twoWorkers.plan oneFileTree) oneFileTree
  exact ⟨by decide +kernel,
    hseparated.isStable (by decide +kernel) (by decide +kernel) (by decide) hend⟩

/-- Two targets, of which the second puts its output where the first reads. -/
def escapingLater : Project :=
  { escaping with config := { escaping.config with targets := escaping.config.targets.reverse } }

/-- If an output path leads out of its output root, what a build has left can have other sources
than the ones that it was built from, so that building it again changes files. -/
theorem escapingLater_not_isStable : escapingLater.IsSeparated escapingTree ∧
    (∀ t ∈ escapingLater.config.targets, escapingTree.isDirectory t.sourceRoot = true) ∧
    0 < escapingLater.workers ∧
    ¬escapingLater.IsStable escapingTree (escapingLater.ended escapingTree) := by
  refine ⟨by constructor <;> decide +kernel, by decide +kernel, by decide, fun h => ?_⟩
  obtain ⟨log, hend⟩ := exists_endsIn_run escapingLater
    (escapingLater.plan (escapingLater.ended escapingTree).shared.tree)
    (escapingLater.ended escapingTree).shared.tree
  have hcontents := h.contents 1 log _ hend ["out2", "b.js"]
  revert hcontents
  decide +kernel

end Project

end Filewise
