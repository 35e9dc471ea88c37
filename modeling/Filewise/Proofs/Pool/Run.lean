import Filewise.Proofs.Pool.Step
import Mathlib.Algebra.GroupWithZero.Nat
import Mathlib.Data.List.Induction
import Mathlib.Data.List.Perm.Basic

/-!
# Runs of the work

A run is a sequence of steps of any workers in any order. It comes with its schedule,
which says whose step comes when, and with a log of what happened to the units. Each
step brings the work closer to its end, so runs cannot go on for ever, and work that
cannot go on is finished.

## Main definitions

* `Pool.Run`: the runs of the work, with schedule and log.
* `Pool.remaining`: a bound on the steps that are left.
* `Project.EndsIn`: how the work on a plan can end.

## Main results

* `Pool.Run.length_add_remaining_le`: runs are bounded.
* `Pool.isFinished_of_isStuck`: only finished work is stuck.
* `Project.exists_endsIn_run`: the order that is carried out leads to an end of the work.
-/

namespace Filewise

namespace Pool

/-- What happens to a unit in the next step of a worker. -/
def event? (units : List PlannedUnit) (pool : Pool) (worker : Nat) : Option Event := do
  (← pool.workers[worker]?).event? units pool.shared

/-- The runs from a state of the work: which workers step one after the other, what happens
to the units, and the state that is reached. -/
inductive Run (c : BuildConfig) (units : List PlannedUnit) (first : Pool) :
    List Nat → List Event → Pool → Prop
  | start : Run c units first [] [] first
  | step {schedule log pool worker next} : Run c units first schedule log pool →
      pool.step? c units worker = some next →
      Run c units first (schedule ++ [worker]) (log ++ (pool.event? units worker).toList) next

/-- All workers have finished. -/
def IsFinished (pool : Pool) : Prop := ∀ w ∈ pool.workers, w.phase = .finished

/-- No worker can take a step. -/
def IsStuck (c : BuildConfig) (units : List PlannedUnit) (pool : Pool) : Prop :=
  ∀ worker, pool.step? c units worker = none

variable {c : BuildConfig} {units : List PlannedUnit} {first pool next : Pool} {worker : Nat}
  {schedule : List Nat} {log : List Event}

/-- In a step of the work one worker steps by the rules. -/
theorem exists_of_step? (h : pool.step? c units worker = some next) :
    ∃ w w', pool.workers[worker]? = some w ∧ next.workers = pool.workers.set worker w' ∧
      Worker.Step c units pool.shared w.tally w.phase (pool.event? units worker)
        next.shared w' := by
  unfold step? at h
  cases hw : pool.workers[worker]? with
  | none => simp [hw] at h
  | some w =>
    cases hstep : w.step? c units pool.shared with
    | none => simp [hw, hstep] at h
    | some result =>
      obtain ⟨shared, w'⟩ := result
      simp only [hw, hstep, bind, Option.bind, pure, Option.some.injEq] at h
      subst h
      refine ⟨w, w', rfl, rfl, ?_⟩
      simp only [event?, hw, bind, Option.bind]
      exact Worker.step_of_step? hstep

/-- What one worker changes among the workers. -/
theorem perm_of_set {workers : List Worker} {w : Worker} (h : workers[worker]? = some w)
    (w' : Worker) : ∃ others, workers.Perm (w :: others) ∧
      (workers.set worker w').Perm (w' :: others) := by
  obtain ⟨hlt, rfl⟩ := List.getElem?_eq_some_iff.mp h
  exact ⟨workers.eraseIdx worker, (List.getElem_cons_eraseIdx_perm hlt).symm,
    List.set_perm_cons_eraseIdx hlt w'⟩

/-- There are always as many workers as before. -/
theorem Run.length_workers (h : Run c units first schedule log pool) :
    pool.workers.length = first.workers.length := by
  induction h with
  | start => rfl
  | step _ hstep ih =>
    obtain ⟨w, w', -, hworkers, -⟩ := exists_of_step? hstep
    rw [hworkers, List.length_set, ih]

/-! ### Runs come to an end -/

/-- A bound on the steps that are left. -/
def remaining (units : List PlannedUnit) (pool : Pool) : Nat :=
  10 * (units.length - pool.shared.taken) + (pool.workers.map fun w => w.phase.rank).sum

/-- Each step brings the work closer to its end. -/
theorem remaining_lt (h : pool.step? c units worker = some next) :
    next.remaining units < pool.remaining units := by
  obtain ⟨w, w', hw, hworkers, hstep⟩ := exists_of_step? h
  obtain ⟨others, hperm, hperm'⟩ := perm_of_set hw w'
  -- only the worker that steps counts differently
  have hsum := (hperm.map fun w => w.phase.rank).sum_nat
  have hsum' := (hperm'.map fun w => w.phase.rank).sum_nat
  rw [List.map_cons, List.sum_cons] at hsum hsum'
  unfold remaining
  rw [hworkers, hsum, hsum']
  have hless := hstep.rank_lt
  omega

/-- Runs are bounded. -/
theorem Run.length_add_remaining_le (h : Run c units first schedule log pool) :
    schedule.length + pool.remaining units ≤ first.remaining units := by
  induction h with
  | start => simp
  | step _ hstep ih =>
    have hless := remaining_lt hstep
    rw [List.length_append, List.length_singleton]
    omega

/-- The units that workers are at exist. -/
def UnitsExist (units : List PlannedUnit) (pool : Pool) : Prop :=
  ∀ w ∈ pool.workers, ∀ i, w.phase.unit? = some i → i < units.length

theorem UnitsExist.step (h : pool.UnitsExist units)
    (hstep : pool.step? c units worker = some next) : next.UnitsExist units := by
  obtain ⟨w, w', hw, hworkers, hstep⟩ := exists_of_step? hstep
  intro v hv i hi
  rw [hworkers] at hv
  rcases List.mem_or_eq_of_mem_set hv with hv | rfl
  · exact h v hv i hi
  · rcases hstep.unit?_of_unit? hi with hi | ⟨rfl, hlt⟩
    · exact h w (List.mem_of_getElem? hw) i hi
    · exact hlt

theorem Run.unitsExist (h : Run c units first schedule log pool) (hfirst : first.UnitsExist units) :
    pool.UnitsExist units := by
  induction h with
  | start => exact hfirst
  | step _ hstep ih => exact ih.step hstep

/-- Only finished work is stuck. -/
theorem isFinished_of_isStuck (h : pool.UnitsExist units) (hstuck : pool.IsStuck c units) :
    pool.IsFinished := by
  intro w hw
  obtain ⟨worker, hworker⟩ := List.mem_iff_getElem?.mp hw
  -- a worker that has not finished could take a step
  by_contra hphase
  obtain ⟨result, hresult⟩ :=
    Option.isSome_iff_exists.mp (Worker.step?_isSome (c := c) (s := pool.shared) hphase (h w hw))
  have hnone := hstuck worker
  simp [step?, hworker, hresult] at hnone

/-- Finished work is stuck. -/
theorem IsFinished.isStuck (h : pool.IsFinished) : pool.IsStuck c units := by
  intro worker
  cases hw : pool.workers[worker]? with
  | none => simp [step?, hw]
  | some w =>
    have hphase := h w (List.mem_of_getElem? hw)
    simp [step?, hw, Worker.step?, hphase]

/-! ### The order that is carried out -/

/-- What a worker does when it works until there is nothing left to do: it finishes, and the
others stay where they are. -/
theorem Run.exists_runWorker {w : Worker} (h : Run c units first schedule log pool)
    (hunits : first.UnitsExist units) (hw : pool.workers[worker]? = some w) {steps : Nat}
    (hsteps : 10 * (units.length - pool.shared.taken) + w.phase.rank < steps) :
    (∃ schedule' log', Run c units first schedule' log' (runWorker c units worker steps pool)) ∧
      (∃ w', (runWorker c units worker steps pool).workers[worker]? = some w' ∧
        w'.phase = .finished) ∧
      ∀ other, other ≠ worker →
        (runWorker c units worker steps pool).workers[other]? = pool.workers[other]? := by
  induction steps generalizing pool schedule log w with
  | zero => omega
  | succ steps ih =>
    unfold runWorker
    cases hstep : pool.step? c units worker with
    | none =>
      refine ⟨⟨schedule, log, h⟩, ⟨w, hw, ?_⟩, fun _ _ => rfl⟩
      by_contra hphase
      obtain ⟨result, hresult⟩ := Option.isSome_iff_exists.mp <|
        Worker.step?_isSome (c := c) (s := pool.shared) hphase
          (h.unitsExist hunits w (List.mem_of_getElem? hw))
      simp [step?, hw, hresult] at hstep
    | some next =>
      obtain ⟨v, w', hv, hworkers, hrules⟩ := exists_of_step? hstep
      obtain rfl := Option.some_inj.mp (hv.symm.trans hw)
      -- the step uses up at least one of those that are left
      have hless := hrules.rank_lt
      have hw' : next.workers[worker]? = some w' := by
        rw [hworkers, List.getElem?_set_self (List.getElem?_eq_some_iff.mp hw).1]
      obtain ⟨hrun, hfinished, hothers⟩ := ih (h.step hstep) hw' (by omega)
      refine ⟨hrun, hfinished, fun other hne => ?_⟩
      rw [hothers other hne, hworkers, List.getElem?_set_ne hne.symm]

/-- What the workers do when each of some of them in turn works until there is nothing left to
do: these finish. -/
theorem Run.exists_runWorkers (hunits : first.UnitsExist units) {workers : List Nat}
    (hworkers : ∀ worker ∈ workers, worker < first.workers.length) :
    ∃ schedule log, Run c units first schedule log (workers.foldl
        (fun pool worker => runWorker c units worker (enoughSteps units) pool) first) ∧
      ∀ worker ∈ workers, ∀ w, (workers.foldl
        (fun pool worker => runWorker c units worker (enoughSteps units) pool)
        first).workers[worker]? = some w → w.phase = .finished := by
  induction workers using List.reverseRecOn with
  | nil => exact ⟨[], [], .start, by simp⟩
  | append_singleton workers worker ih =>
    obtain ⟨schedule, log, hrun, hfinished⟩ :=
      ih fun other hother => hworkers other (List.mem_append_left _ hother)
    rw [List.foldl_append]
    generalize workers.foldl
      (fun pool worker => runWorker c units worker (enoughSteps units) pool) first = pool at *
    have hlt : worker < pool.workers.length := by
      rw [hrun.length_workers]
      exact hworkers worker (List.mem_append_right _ (List.mem_singleton_self _))
    have hrank : ∀ phase : Phase, phase.rank ≤ 9 := by
      intro phase
      cases phase <;> simp [Phase.rank]
    -- as many steps are allowed as the units and a worker at its first one can need
    have hsteps : 10 * (units.length - pool.shared.taken) +
        (pool.workers[worker]).phase.rank < enoughSteps units := by
      have := hrank (pool.workers[worker]).phase
      unfold enoughSteps
      omega
    obtain ⟨⟨schedule', log', hrun'⟩, ⟨w', hw', hphase⟩, hothers⟩ :=
      hrun.exists_runWorker hunits (List.getElem?_eq_getElem hlt) hsteps
    refine ⟨schedule', log', hrun', fun other hother w hw => ?_⟩
    rw [List.foldl_cons, List.foldl_nil] at hw
    by_cases hne : other = worker
    · subst hne
      rwa [Option.some_inj.mp (hw.symm.trans hw')]
    · rw [hothers other hne] at hw
      refine hfinished other ?_ w hw
      exact (List.mem_append.mp hother).resolve_right fun h => hne (List.mem_singleton.mp h)

/-- The order that is carried out is one of the orders in which the workers can take their
steps, and it leads to finished work. -/
theorem Run.exists_run (hunits : first.UnitsExist units) :
    ∃ schedule log, Run c units first schedule log (first.run c units) ∧
      (first.run c units).IsFinished := by
  have hrange : ∀ worker ∈ List.range first.workers.length, worker < first.workers.length :=
    fun worker hworker => List.mem_range.mp hworker
  obtain ⟨schedule, log, hrun, hfinished⟩ := Run.exists_runWorkers (c := c) hunits hrange
  refine ⟨schedule, log, hrun, fun w hw => ?_⟩
  obtain ⟨worker, hworker⟩ := List.mem_iff_getElem?.mp hw
  refine hfinished worker (List.mem_range.mpr ?_) w hworker
  rw [← hrun.length_workers]
  exact (List.getElem?_eq_some_iff.mp hworker).1

theorem unitsExist_start (workers : Nat) (p : Plan) (tree : Tree) :
    (Pool.start workers p tree).UnitsExist p.units := by
  intro w hw i hi
  rw [List.eq_of_mem_replicate hw] at hi
  simp [Phase.unit?] at hi

end Pool

/-! ### Ends of the work on a plan -/

namespace Project

/-- The work on a plan can end like this, with this log: some order of the steps leads there,
and there nobody can take a step. -/
def EndsIn (project : Project) (p : Plan) (tree : Tree) (log : List Event) (pool : Pool) : Prop :=
  (∃ schedule, Pool.Run project.config p.units (Pool.start project.workers p tree)
    schedule log pool) ∧ pool.IsStuck project.config p.units

variable {project : Project} {p : Plan} {tree : Tree} {log : List Event} {pool : Pool}

theorem EndsIn.isFinished (h : project.EndsIn p tree log pool) : pool.IsFinished := by
  obtain ⟨⟨schedule, hrun⟩, hstuck⟩ := h
  exact Pool.isFinished_of_isStuck (hrun.unitsExist (Pool.unitsExist_start _ p tree)) hstuck

theorem EndsIn.length_workers (h : project.EndsIn p tree log pool) :
    pool.workers.length = min project.workers p.units.length := by
  obtain ⟨⟨schedule, hrun⟩, -⟩ := h
  rw [hrun.length_workers]
  exact List.length_replicate

/-- The work ends as it does in the order that is carried out. -/
theorem exists_endsIn_run (project : Project) (p : Plan) (tree : Tree) :
    ∃ log, project.EndsIn p tree log
      ((Pool.start project.workers p tree).run project.config p.units) := by
  obtain ⟨schedule, log, hrun, hfinished⟩ :=
    Pool.Run.exists_run (c := project.config) (Pool.unitsExist_start project.workers p tree)
  exact ⟨log, ⟨schedule, hrun⟩, hfinished.isStuck⟩

end Project

end Filewise
