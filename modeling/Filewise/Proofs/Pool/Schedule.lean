import Filewise.Pool.Run
import Filewise.Proofs.Plan.Separation
import Filewise.Proofs.Pool.Halt
import Filewise.Proofs.Report.Order

/-!
# The schedule does not matter

Whatever order the workers take their steps in, and however many there are, the work on
the plan of a separated project ends with the same files and the same report. Each unit
goes as it goes on its own.

## Main definitions

* `Tree.contentAt?`: the content of a file.
* `Project.outcome`, `Project.failure?`: how a unit goes on its own.
* `Project.IsBuilt`, `Project.reportAlone`: the files and the report of a build in which each
  unit goes as it goes on its own.

## Main results

* `Pool.IsDone.perm_records`: each unit is taken down once, as it goes on its own.
* `Project.IsSeparated.schedule_independent`: the work on a plan always ends with the same
  files and the same report.
-/

namespace Filewise

/-- The content of a file, if there is one at a location. -/
def Tree.contentAt? (t : Tree) (l : Location) : Option ByteArray :=
  match t.find? l with
  | some (.file content) => some content
  | _ => none

/-! ### Units on their own are never refused -/

theorem isCollision_of_write_error {tree : Tree} {root path source : Path} {content : ByteArray}
    {target : String} {e : WriteError} (i : Nat)
    (h : (Outputs.empty.write tree target root path source content).2.2 = .error e) :
    isCollision (i, .error (unitError source e)) = false := by
  -- nobody else has claimed anything
  have hclaim : Outputs.empty.claim target path source =
      .ok { Outputs.empty with claims := [⟨target, path, source⟩] } := rfl
  unfold Outputs.write at h
  rw [hclaim] at h
  dsimp only at h
  split at h
  · rename_i hmade
    obtain rfl := Except.error.inj h
    unfold Outputs.makeDirectory at hmade
    split at hmade
    · simp at hmade
    · obtain rfl := Except.error.inj (Prod.mk.inj hmade).2
      rfl
  · split at h
    · rename_i hplace
      obtain rfl := Except.error.inj h
      unfold Outputs.place at hplace
      split at hplace
      · simp at hplace
      · obtain rfl := Except.error.inj hplace
        rfl
    · simp at h

/-- On its own no job is refused. -/
theorem Job.isCollision_result (j : Job) (tree : Tree) (i : Nat) :
    isCollision (i, j.result tree) = false := by
  cases hconverted : j.unit.converted j.target j.source tree with
  | error e =>
    rw [Job.result_of_converted_error hconverted]
    unfold PlannedUnit.converted at hconverted
    cases hread : (j.source.read tree).2 with
    | error e' =>
      rw [hread] at hconverted
      obtain rfl := Except.error.inj hconverted
      exact isCollision_of_read_error i hread
    | ok raw =>
      rw [hread] at hconverted
      exact isCollision_of_convert_error i hconverted
  | ok content =>
    rw [Job.result_of_converted_ok hconverted]
    unfold PlannedUnit.written
    split
    · rfl
    · rename_i hwrite
      exact isCollision_of_write_error i hwrite

/-! ### The end of undisturbed work -/

/-- How jobs go on their own, with their numbers. -/
def jobResults (jobs : List Job) (tree : Tree) : List (Nat × UnitResult) :=
  jobs.zipIdx.map fun (j, i) => (i, j.result tree)

/-- What is read off the results of jobs can be read off the jobs. -/
theorem map_jobResults {β : Type} {jobs : List Job} {tree : Tree} {f : Nat × UnitResult → β}
    {g : Job → β} (h : ∀ i j, jobs[i]? = some j → f (i, j.result tree) = g j) :
    (jobResults jobs tree).map f = jobs.map g := by
  have hmap : jobs.map g = jobs.zipIdx.map (g ∘ Prod.fst) := by
    rw [← List.map_map, List.zipIdx_map_fst]
  rw [jobResults, List.map_map, hmap]
  apply List.map_congr_left
  rintro ⟨j, i⟩ hmem
  exact h i j (List.mk_mem_zipIdx_iff_getElem?.mp hmem)

/-- The failure of a job that is worked on alone. -/
def Job.failure? (j : Job) (tree : Tree) : Option UnitError :=
  match j.outcome tree with
  | .ok _ => none
  | .error e => some ⟨j.unit.target, some j.source.relative, e⟩

namespace Pool

/-- Undisturbed work on jobs is done, and there was somebody to do it. -/
structure IsDone (c : BuildConfig) (units : List PlannedUnit) (start : Pool) (jobs : List Job)
    (log : List Event) (pool : Pool) : Prop where
  areJobs : AreJobs c units start.shared jobs
  undisturbed : Undisturbed start.shared jobs log pool
  books : Accounted units start log pool
  finished : pool.IsFinished
  workers : units ≠ [] → pool.workers ≠ []

namespace IsDone

variable {c : BuildConfig} {units : List PlannedUnit} {start pool : Pool} {jobs : List Job}
  {log : List Event}

/-- Undisturbed work is not halted. -/
theorem isHalted_eq (h : IsDone c units start jobs log pool) : pool.shared.isHalted = false := by
  rw [h.books.halted, List.any_eq_false]
  intro r hr
  obtain ⟨j, -, hresult⟩ := h.undisturbed.events _ (mem_of_mem_records hr)
  obtain ⟨i, result⟩ := r
  obtain rfl : result = j.result start.shared.tree := hresult
  rw [j.isCollision_result start.shared.tree i]
  simp

/-- Each unit is taken down once, as its job goes on its own. -/
theorem perm_records (h : IsDone c units start jobs log pool) :
    (records log).Perm (jobResults jobs start.shared.tree) := by
  -- the number of a record determines the rest of it, and each number comes once
  let answer (i : Nat) : Nat × UnitResult :=
    (i, ((jobs[i]?).map fun j => j.result start.shared.tree).getD (.ok ()))
  have hrecords : records log = ((records log).map Prod.fst).map answer := by
    rw [List.map_map]
    refine (List.map_id _).symm.trans (List.map_congr_left fun r hr => ?_)
    obtain ⟨j, hj, hresult⟩ := h.undisturbed.events _ (mem_of_mem_records hr)
    simp only [answer, Function.comp_apply, hj, Option.map_some, Option.getD_some, ← hresult]
    rfl
  have hresults : jobResults jobs start.shared.tree = (List.range units.length).map answer := by
    have hlength : units.length = jobs.length := by rw [h.areJobs.units, List.length_map]
    rw [hlength, List.range_eq_range', ← List.zipIdx_map_snd 0 jobs, List.map_map]
    apply List.map_congr_left
    rintro ⟨j, i⟩ hmem
    simp [answer, List.mk_mem_zipIdx_iff_getElem?.mp hmem]
  rw [hrecords, hresults]
  exact (h.books.perm_records h.finished h.isHalted_eq h.workers).map answer

/-- What is counted among the records can be counted among the jobs. -/
theorem countP_records (h : IsDone c units start jobs log pool) {f : Nat × UnitResult → Bool}
    {g : Job → Bool}
    (hfg : ∀ i j, jobs[i]? = some j → f (i, j.result start.shared.tree) = g j) :
    (records log).countP f = jobs.countP g := by
  rw [h.perm_records.countP_eq, ← Function.id_comp f, ← List.countP_map, map_jobResults hfg,
    List.countP_map, Function.id_comp]

/-- Written units of one kind are as many as the jobs of that kind that can be written. -/
theorem countP_records_ok (h : IsDone c units start jobs log pool) {f : Nat × UnitResult → Bool}
    (kind : PlannedUnit → Bool) (hok : ∀ i, f (i, .ok ()) = (units[i]?).any kind)
    (herror : ∀ i e, f (i, .error e) = false) :
    (records log).countP f =
      jobs.countP fun j => (j.outcome start.shared.tree).isOk && kind j.unit := by
  apply h.countP_records
  intro i j hj
  unfold Job.result
  cases j.outcome start.shared.tree with
  | error e => exact herror i e
  | ok content =>
    change f (i, .ok ()) = kind j.unit
    rw [hok, h.areJobs.getElem?_units hj, Option.any_some]

theorem transformed_eq (h : IsDone c units start jobs log pool) :
    pool.tally.transformed = jobs.countP (fun j : Job =>
      (j.outcome start.shared.tree).isOk && !j.unit.isPassthrough) := by
  rw [h.books.transformed]
  exact h.countP_records_ok (fun u => !u.isPassthrough) (fun _ => rfl) fun _ _ => rfl

theorem passthrough_eq (h : IsDone c units start jobs log pool) :
    pool.tally.passthrough = jobs.countP (fun j : Job =>
      (j.outcome start.shared.tree).isOk && j.unit.isPassthrough) := by
  rw [h.books.copied]
  exact h.countP_records_ok PlannedUnit.isPassthrough (fun _ => rfl) fun _ _ => rfl

/-- The failures that were noted are those of the jobs, in some order. -/
theorem perm_errors (h : IsDone c units start jobs log pool) :
    pool.tally.errors.Perm (jobs.filterMap (·.failure? start.shared.tree)) := by
  have hresults : (jobResults jobs start.shared.tree).map (failure? units start.shared) =
      jobs.map (·.failure? start.shared.tree) := by
    apply map_jobResults
    intro i j hj
    have hsource := h.areJobs.source_eq (List.mem_of_getElem? hj)
    unfold Job.result Job.failure?
    cases houtcome : j.outcome start.shared.tree with
    | error e =>
      simp [failure?, h.areJobs.getElem?_units hj, hsource, Functor.map, Except.map]
    | ok content => rfl
  have hflat := congrArg (List.filterMap id) hresults
  rw [List.filterMap_map, List.filterMap_map, Function.id_comp, Function.id_comp] at hflat
  rw [← hflat]
  exact h.books.errors.trans (h.perm_records.filterMap _)

/-- A job that can be written is written. -/
theorem mem_wrote {i : Nat} {j : Job} {content : ByteArray}
    (h : IsDone c units start jobs log pool) (hj : jobs[i]? = some j)
    (hok : j.outcome start.shared.tree = .ok content) : i ∈ log.filterMap Event.wrote? := by
  have hperm := (h.books.perm_wrote h.finished).trans (h.perm_records.filterMap writtenUnit?)
  refine hperm.mem_iff.mpr (List.mem_filterMap.mpr ⟨(i, j.result start.shared.tree), ?_, ?_⟩)
  · exact List.mem_map.mpr ⟨(j, i), List.mk_mem_zipIdx_iff_getElem?.mpr hj, rfl⟩
  · rw [Job.result, hok]
    rfl

end IsDone

end Pool

/-! ### Builds -/

namespace Project

variable {project : Project} {p : Plan} {tree t : Tree} {u : PlannedUnit} {jobs : List Job}
  {log : List Event} {pool : Pool} {started finished : Instant}

/-- What a unit of a plan writes that is worked on alone, or why it writes nothing. -/
def outcome (project : Project) (p : Plan) (tree : Tree) (u : PlannedUnit) :
    Except BuildError ByteArray := do
  let target ← project.config.targetOf u (p.sourceOf u).relative
  u.outcome target (p.sourceOf u) tree

/-- The failure of a unit of a plan that is worked on alone. -/
def failure? (project : Project) (p : Plan) (tree : Tree) (u : PlannedUnit) : Option UnitError :=
  match project.outcome p tree u with
  | .ok _ => none
  | .error e => some ⟨u.target, some (p.sourceOf u).relative, e⟩

/-- The report of a build in which each unit goes as it goes on its own. -/
def reportAlone (project : Project) (p : Plan) (tree : Tree) (started finished : Instant) :
    Report :=
  Report.ofTally p.units.length
    (p.units.countP fun u => (project.outcome p tree u).isOk && !u.isPassthrough)
    (p.units.countP fun u => (project.outcome p tree u).isOk && u.isPassthrough)
    false (p.errors ++ p.units.filterMap (project.failure? p tree)) started finished

/-- Each unit that can be written has left at its destination what it writes on its own, and
every other file is as it was. -/
structure IsBuilt (project : Project) (p : Plan) (tree t : Tree) : Prop where
  written : ∀ u ∈ p.units, ∀ target content, project.config.targets[u.targetIndex]? = some target →
    project.outcome p tree u = .ok content →
    t.contentAt? (u.destinationIn target).location = some content
  other : ∀ l, (∀ u ∈ p.units, ∀ target content,
      project.config.targets[u.targetIndex]? = some target →
      project.outcome p tree u = .ok content → (u.destinationIn target).location ≠ l) →
    t.contentAt? l = tree.contentAt? l

theorem outcome_eq {j : Job} (h : j.Fits project.config p.sources) :
    project.outcome p tree j.unit = j.outcome tree := by
  rw [outcome, h.targetOf_eq, Plan.sourceOf, h.source]
  rfl

theorem failure?_eq {j : Job} (h : j.Fits project.config p.sources) :
    project.failure? p tree j.unit = j.failure? tree := by
  rw [failure?, Job.failure?, outcome_eq h, Plan.sourceOf, h.source]
  rfl

/-- Undisturbed work leaves what it should. -/
theorem isBuilt_of_isDone
    (h : Pool.IsDone project.config p.units (Pool.start project.workers p tree) jobs log pool) :
    project.IsBuilt p tree pool.shared.tree := by
  have hunits := h.areJobs.units
  have hwritten := h.undisturbed.shared.written
  constructor
  · intro u hu target content htarget hok
    rw [hunits] at hu
    obtain ⟨j, hj, rfl⟩ := List.mem_map.mp hu
    have hfits := h.areJobs.fits j hj
    obtain ⟨i, hi⟩ := List.mem_iff_getElem?.mp hj
    obtain rfl := Option.some_inj.mp (hfits.target?.symm.trans htarget)
    rw [outcome_eq hfits] at hok
    obtain ⟨content', hok', hfile⟩ :=
      hwritten.exists_of_mem h.areJobs.apart hi (h.mem_wrote hi hok)
    obtain rfl := Except.ok.inj (hok.symm.trans hok')
    have hlocation : (j.unit.destinationIn j.target).location = j.destination :=
      Path.location_eq hfits.destination
    rw [hlocation, Tree.contentAt?, hfile]
  · intro l hl
    -- the place is as it was, or a job wrote it, or a directory was made there
    rcases hwritten.cases l with ⟨heq, -⟩ | ⟨i, -, j, content, hj, rfl, hok, -⟩ |
      ⟨hnone, hmade, -⟩
    · rw [Tree.contentAt?, Tree.contentAt?, heq]
      rfl
    · have hmem := List.mem_of_getElem? hj
      have hfits := h.areJobs.fits j hmem
      refine absurd (Path.location_eq hfits.destination) ?_
      refine hl j.unit ?_ j.target content hfits.target? ?_
      · rw [hunits]
        exact List.mem_map_of_mem hmem
      · rw [outcome_eq hfits]
        exact hok
    · change tree.find? l = none at hnone
      rw [Tree.contentAt?, Tree.contentAt?, hnone, hmade]

/-- Undisturbed work is reported as it should be, if failures do not tie. -/
theorem report_of_isDone
    (h : Pool.IsDone project.config p.units (Pool.start project.workers p tree) jobs log pool)
    (hties : (p.units.filterMap (project.failure? p tree)).Pairwise fun e e' =>
      e.compare e' ≠ .eq) :
    report p pool started finished = project.reportAlone p tree started finished := by
  have hcount : ∀ f : Bool → Bool,
      jobs.countP (fun j : Job => (j.outcome tree).isOk && f j.unit.isPassthrough) =
        p.units.countP fun u => (project.outcome p tree u).isOk && f u.isPassthrough := by
    intro f
    rw [h.areJobs.units, List.countP_map]
    apply List.countP_congr
    intro j hj
    rw [Function.comp_apply, outcome_eq (h.areJobs.fits j hj)]
  have hfailures : jobs.filterMap (·.failure? tree) =
      p.units.filterMap (project.failure? p tree) := by
    rw [h.areJobs.units, List.filterMap_map]
    apply List.filterMap_congr
    intro j hj
    rw [Function.comp_apply, failure?_eq (h.areJobs.fits j hj)]
  have herrors : pool.tally.errors.Perm (p.units.filterMap (project.failure? p tree)) := by
    rw [← hfailures]
    exact h.perm_errors
  -- the order in which the failures arrived is lost by sorting
  have hsorted : Report.sortErrors (p.errors ++ pool.tally.errors) =
      Report.sortErrors (p.errors ++ p.units.filterMap (project.failure? p tree)) :=
    (Report.sortErrors_append_perm herrors.symm hties).symm
  unfold report reportAlone Report.ofTally
  dsimp only
  rw [h.isHalted_eq, h.transformed_eq.trans (hcount not), h.passthrough_eq.trans (hcount id),
    hsorted]
  rfl

/-- Failures of different units of a separated project do not tie. -/
theorem IsSeparated.pairwise_failure? [Schema.Compiler] (h : project.IsSeparated tree) :
    ((project.plan tree).units.filterMap (project.failure? (project.plan tree) tree)).Pairwise
      fun e e' => e.compare e' ≠ .eq := by
  rw [List.pairwise_filterMap]
  apply h.pairwise_source.imp
  intro u v hpair e he e' he' htie
  obtain ⟨htarget, hsource⟩ := UnitError.same_of_compare_eq htie
  unfold failure? at he he'
  split at he
  · simp at he
  · split at he'
    · simp at he'
    · obtain rfl := Option.some_inj.mp he
      obtain rfl := Option.some_inj.mp he'
      have hsame := hpair htarget
      rw [Path.compare_eq_iff.mp hsource] at hsame
      simp at hsame

/-- However the work on the plan of a separated project ends, it is done and nobody was disturbed,
as long as output paths are made of names. -/
theorem IsSeparated.exists_isDone [Schema.Compiler] (h : project.IsSeparated tree)
    (hnamed : ∀ u ∈ (project.plan tree).units, u.outputPath.IsNamed)
    (hworkers : 0 < project.workers) (hend : project.EndsIn (project.plan tree) tree log pool) :
    ∃ jobs, Pool.IsDone project.config (project.plan tree).units
      (Pool.start project.workers (project.plan tree) tree) jobs log pool := by
  obtain ⟨⟨schedule, hrun⟩, -⟩ := id hend
  obtain ⟨jobs, hjobs⟩ := h.exists_jobs hnamed project.workers
  have hplan := project.isPlan_plan h.wellFormed
  refine ⟨jobs, hjobs, hrun.undisturbed hjobs fun x hx => (hplan.fresh x hx).1, hrun.accounted,
    hend.isFinished, fun hunits hnone => ?_⟩
  have hlength := hend.length_workers
  have hpositive := List.length_pos_iff.mpr hunits
  rw [hnone, List.length_nil] at hlength
  omega

/-- However many workers work on the plan of a separated project whose output paths are made of
names, and in whatever order they take their steps, they come to an end, and always with the
same files and the same report: each unit goes as it goes on its own. -/
theorem IsSeparated.schedule_independent [Schema.Compiler] (h : project.IsSeparated tree)
    (hnamed : ∀ u ∈ (project.plan tree).units, u.outputPath.IsNamed)
    (hworkers : 0 < project.workers) :
    (∃ bound, ∀ schedule log pool, Pool.Run project.config (project.plan tree).units
      (Pool.start project.workers (project.plan tree) tree) schedule log pool →
        schedule.length ≤ bound) ∧
    ∀ log pool, project.EndsIn (project.plan tree) tree log pool →
      project.IsBuilt (project.plan tree) tree pool.shared.tree ∧
      report (project.plan tree) pool started finished =
        project.reportAlone (project.plan tree) tree started finished := by
  refine ⟨⟨_, fun schedule log pool hrun =>
    (Nat.le_add_right _ _).trans hrun.length_add_remaining_le⟩, fun log pool hend => ?_⟩
  -- all that is needed of a run is that it disturbs nobody and keeps the books
  obtain ⟨jobs, hdone⟩ := h.exists_isDone hnamed hworkers hend
  exact ⟨isBuilt_of_isDone hdone, report_of_isDone hdone h.pairwise_failure?⟩

/-- The separate targets with two workers. -/
def twoWorkers : Project := twoOutputs.withWorkers 2

theorem twoWorkers_schedule_independent :
    (twoWorkers.plan oneFileTree).units.length = 2 ∧
    (∃ bound, ∀ schedule log pool, Pool.Run twoWorkers.config (twoWorkers.plan oneFileTree).units
      (Pool.start twoWorkers.workers (twoWorkers.plan oneFileTree) oneFileTree) schedule log pool →
        schedule.length ≤ bound) ∧
    ∀ log pool, twoWorkers.EndsIn (twoWorkers.plan oneFileTree) oneFileTree log pool →
      twoWorkers.IsBuilt (twoWorkers.plan oneFileTree) oneFileTree pool.shared.tree ∧
      report (twoWorkers.plan oneFileTree) pool ⟨0⟩ ⟨0⟩ =
        twoWorkers.reportAlone (twoWorkers.plan oneFileTree) oneFileTree ⟨0⟩ ⟨0⟩ := by
  have hseparated : twoWorkers.IsSeparated oneFileTree := by
    constructor <;> decide +kernel
  exact ⟨by decide +kernel, hseparated.schedule_independent (by decide +kernel) (by decide)⟩

theorem escaping_units_ne_nil : (escaping.plan escapingTree).units ≠ [] := by decide +kernel

/-- The unit of the second target. -/
def disturbed : PlannedUnit := (escaping.plan escapingTree).units.getLast escaping_units_ne_nil

/-- If an output path leads out of its output root, a unit can find another source than the one
that was there when the build began. -/
theorem escaping_not_isBuilt : escaping.IsSeparated escapingTree ∧ 0 < escaping.workers ∧
    ¬escaping.IsBuilt (escaping.plan escapingTree) escapingTree
      (escaping.build escapingTree ⟨0⟩ ⟨0⟩).shared.tree := by
  refine ⟨by constructor <;> decide +kernel, by decide, fun h => ?_⟩
  have hindex : disturbed.targetIndex = 1 := by decide +kernel
  have hwritten := h.written disturbed (List.getLast_mem escaping_units_ne_nil)
    (Target.new "two" ⟨"/two"⟩ ⟨"/out2"⟩) ⟨#[66]⟩ (by rw [hindex]; rfl) (by decide +kernel)
  revert hwritten
  decide +kernel

end Project

end Filewise
