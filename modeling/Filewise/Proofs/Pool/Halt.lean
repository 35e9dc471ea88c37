import Filewise.Proofs.Pool.Success

/-!
# Refused claims and the halt

The only failure that halts the work is a refused claim, and once a refused claim is taken
down the work is halted. Workers look whether the work is halted before they take a unit, and
only those that had looked before the halt take one more unit each.

## Main definitions

* `collision?`: the unit of a record about a refused claim.
* `Pool.refusedAtWork`: units whose claims were refused, at workers.
* `Pool.aboutToTake`: how many workers have looked and not yet taken a unit.

## Main results

* `Pool.Run.perm_refused`: refused claims are those at work and those taken down.
* `Pool.Run.length_took_le`: after the halt no more units are taken than there were workers
  about to take one.
* `Project.run_accounts_for_units`: every unit that is taken is accounted for once.
-/

namespace Filewise

variable {c : BuildConfig} {units : List PlannedUnit}

/-! ### Failures that are no collisions -/

/-- The unit of a record that says that a claim was refused. -/
def collision? : Nat × UnitResult → Option Nat
  | (i, .error (.outputCollision _ _)) => some i
  | _ => none

theorem isCollision_eq (r : Nat × UnitResult) : isCollision r = (collision? r).isSome := by
  unfold isCollision collision?
  split <;> simp_all

theorem collision?_eq_none {r : Nat × UnitResult} (h : isCollision r = false) :
    collision? r = none := by
  rwa [isCollision_eq, Option.isSome_eq_false_iff, Option.isNone_iff_eq_none] at h

/-- A source that cannot be read is not a collision. -/
theorem isCollision_of_read_error {x : Source} {tree : Tree} {e : BuildError} (i : Nat)
    (h : (x.read tree).2 = .error e) : isCollision (i, .error e) = false := by
  unfold Source.read at h
  dsimp only at h
  split at h
  · simp at h
  all_goals
    obtain rfl := Except.error.inj h
    rfl

theorem isCollision_of_runSteps_error {t : Target} {steps : List PlannedStep} {text : String}
    {e : BuildError} (i : Nat) (h : runSteps t steps text = .error e) :
    isCollision (i, .error e) = false := by
  induction steps generalizing text with
  | nil => simp [runSteps, pure, Except.pure] at h
  | cons step steps ih =>
    unfold runSteps at h
    rw [List.foldlM_cons] at h
    split at h
    · exact ih h
    · obtain rfl := Except.error.inj h
      rfl

theorem isCollision_of_convert_error {t : Target} {steps : List PlannedStep} {raw : ByteArray}
    {e : BuildError} (i : Nat) (h : convert t steps raw = .error e) :
    isCollision (i, .error e) = false := by
  cases steps with
  | nil => simp [convert] at h
  | cons first rest =>
    unfold convert at h
    dsimp only at h
    split at h
    · obtain rfl := Except.error.inj h
      rfl
    · rename_i text _
      cases hsteps : runSteps t (first :: rest) text with
      | error e' =>
        rw [hsteps] at h
        obtain rfl := Except.error.inj h
        exact isCollision_of_runSteps_error i hsteps
      | ok result =>
        rw [hsteps] at h
        simp [Functor.map, Except.map] at h

namespace Shared

variable {s s' : Shared} {u : PlannedUnit} {t : Target} {e : BuildError}

/-- A unit that cannot be converted is not refused. -/
theorem isCollision_of_convertFails (i : Nat) (h : s.convert c u = (s', .error e)) :
    isCollision (i, .error e) = false := by
  unfold convert at h
  cases htarget : c.targetOf u (s.source u).relative with
  | error e' =>
    rw [htarget] at h
    obtain rfl := Except.error.inj (Prod.mk.inj h).2
    unfold BuildConfig.targetOf at htarget
    split at htarget
    · simp at htarget
    · obtain rfl := Except.error.inj htarget
      rfl
  | ok t =>
    rw [htarget] at h
    dsimp only at h
    split at h
    · rename_i hread
      obtain rfl := Except.error.inj (Prod.mk.inj h).2
      exact isCollision_of_read_error i (Prod.mk.inj hread).2
    · rename_i raw _
      cases hconvert : Filewise.convert t u.steps raw with
      | error e' =>
        rw [hconvert] at h
        obtain rfl := Except.error.inj (Prod.mk.inj h).2
        exact isCollision_of_convert_error i hconvert
      | ok content =>
        rw [hconvert] at h
        simp [Functor.map, Except.map] at h

/-- A claim that fails is refused. -/
theorem collision?_of_claimFails (i : Nat) (h : s.claim t u = .error e) :
    collision? (i, .error e) = some i := by
  unfold claim at h
  dsimp only at h
  split at h
  · simp at h
  · rename_i refusal hrefusal
    obtain rfl := Except.error.inj h
    unfold Outputs.claim at hrefusal
    split at hrefusal
    · simp at hrefusal
    · split_ifs at hrefusal
      obtain rfl := Except.error.inj hrefusal
      rfl

/-- A directory that cannot be made is not a collision. -/
theorem isCollision_of_makeDirectoryFails (i : Nat)
    (h : s.makeDirectory t u = (s', .error e)) : isCollision (i, .error e) = false := by
  unfold makeDirectory at h
  split at h
  · simp at h
  · rename_i hmake
    obtain rfl := Except.error.inj (Prod.mk.inj h).2
    unfold Outputs.makeDirectory at hmake
    split at hmake
    · simp at hmake
    · obtain rfl := Except.error.inj (Prod.mk.inj hmake).2
      rfl

/-- An output that cannot be put in place is not a collision. -/
theorem isCollision_of_placeFails {content : ByteArray} (i : Nat)
    (h : s.place t u content = (s', .error e)) : isCollision (i, .error e) = false := by
  obtain ⟨-, cause, hcause, rfl⟩ := exists_of_placeFails h
  unfold Outputs.place at hcause
  split at hcause
  · simp at hcause
  · obtain rfl := Except.error.inj hcause
    rfl

end Shared

/-! ### Refused claims -/

/-- The unit whose claim was refused. -/
def Event.refused? : Event → Option Nat
  | refused i => some i
  | _ => none

/-- Whether a worker has looked and is about to take a unit. -/
def Phase.isTaking : Phase → Bool
  | .taking => true
  | _ => false

namespace Worker.Step

variable {s s' : Shared} {y : Tally} {phase : Phase} {event : Option Event} {w' : Worker}

/-- A unit whose claim is refused is at its worker as a refused one until it is taken down. -/
theorem refused_flow (h : Step c units s y phase event s' w') :
    ((event.bind Event.recorded?).bind collision?).toList ++
        (w'.phase.result?.bind collision?).toList =
      (phase.result?.bind collision?).toList ++ (event.bind Event.refused?).toList := by
  have hnone : ∀ {i : Nat} {e : BuildError}, isCollision (i, .error e) = false →
      ((Phase.releasing i (.error e)).result?.bind collision?).toList = [] := by
    intro i e he
    rw [Phase.result?, Option.bind_some, collision?_eq_none he, Option.toList_none]
  cases h with
  | convertFails _ h => exact hnone (Shared.isCollision_of_convertFails _ h)
  | makeDirectoryFails _ h => exact hnone (Shared.isCollision_of_makeDirectoryFails _ h)
  | placeFails _ h => exact hnone (Shared.isCollision_of_placeFails _ h)
  | @claimFails i _ _ _ _ _ h =>
    simp only [Phase.result?, Option.bind_some, Shared.collision?_of_claimFails i h]
    rfl
  | release _ _ =>
    split_ifs <;> simp [Phase.result?]
  | record _ => simp [Phase.result?, Event.recorded?, Event.refused?]
  | drop _ => simp [Phase.result?]
  | _ => rfl

/-- Halted work stays halted. -/
theorem halted_mono (h : Step c units s y phase event s' w') (hhalted : s.isHalted = true) :
    s'.isHalted = true := by
  rw [h.halted_flow, hhalted, Bool.true_or]

/-- Once the work is halted, a worker takes a unit only if it had looked before. -/
theorem taking_flow (h : Step c units s y phase event s' w') (hhalted : s.isHalted = true) :
    (event.bind Event.took?).toList.length + w'.phase.isTaking.toNat ≤ phase.isTaking.toNat := by
  cases h with
  | look hnot => simp [hhalted] at hnot
  | release _ _ => split_ifs <;> simp [Phase.isTaking]
  | _ => simp [Phase.isTaking, Event.took?]

/-- Whoever halts the work looks again next. -/
theorem isTaking_of_halts (h : Step c units s y phase event s' w') (hrunning : s.isHalted = false)
    (hhalted : s'.isHalted = true) : w'.phase.isTaking = false := by
  cases h with
  | look | halt | nothingLeft | take | claimFails | drop => simp_all [Shared.drop]
  | release _ _ => split_ifs <;> rfl
  | _ => rfl

end Worker.Step

namespace Pool

variable {first pool next later : Pool} {worker : Nat} {schedule schedule' : List Nat}
  {log log' : List Event}

/-- The units that workers are at and whose claims were refused. -/
def refusedAtWork (pool : Pool) : List Nat :=
  pool.workers.flatMap fun w => (w.phase.result?.bind collision?).toList

/-- How many workers have looked and are about to take a unit. -/
def aboutToTake (pool : Pool) : Nat := (pool.workers.map fun w => w.phase.isTaking.toNat).sum

/-- A refused claim is at work or taken down as one. -/
theorem Run.perm_refused {workers : Nat} {p : Plan} {tree : Tree}
    (h : Run c p.units (Pool.start workers p tree) schedule log pool) :
    (log.filterMap Event.refused?).Perm
      ((records log).filterMap collision? ++ pool.refusedAtWork) := by
  induction h with
  | start =>
    have hnone : (Pool.start workers p tree).refusedAtWork = [] := by
      apply List.flatMap_eq_nil_iff.mpr
      intro w hw
      rw [List.eq_of_mem_replicate hw]
      rfl
    rw [hnone]
    rfl
  | @step _ log pool worker next _ hstep ih =>
    obtain ⟨w, w', hw, hworkers, hstep⟩ := exists_of_step? hstep
    obtain ⟨others, hperm, hperm'⟩ := perm_of_set hw w'
    rw [← hworkers] at hperm'
    rw [records_append, filterMap_append_toList, List.filterMap_append, filterMap_toList]
    exact (perm_of_flow hperm hperm' ih.symm hstep.refused_flow).symm

theorem mem_refused {i : Nat} : i ∈ log.filterMap Event.refused? ↔ Event.refused i ∈ log := by
  rw [List.mem_filterMap]
  constructor
  · rintro ⟨event, hevent, heq⟩
    cases event with
    | refused j =>
      obtain rfl := Option.some_inj.mp heq
      exact hevent
    | _ => simp [Event.refused?] at heq
  · exact fun hevent => ⟨_, hevent, rfl⟩

/-- When everything is taken down, the refused claims are those that were taken down. -/
theorem Run.refused_mem_iff {workers : Nat} {p : Plan} {tree : Tree} {i : Nat}
    (h : Run c p.units (Pool.start workers p tree) schedule log pool)
    (hfinished : pool.IsFinished) :
    Event.refused i ∈ log ↔ ∃ r ∈ records log, collision? r = some i := by
  have hnone : pool.refusedAtWork = [] := List.flatMap_eq_nil_iff.mpr fun w hw => by
    rw [hfinished w hw]
    rfl
  have hperm := h.perm_refused
  rw [hnone, List.append_nil] at hperm
  rw [← mem_refused, hperm.mem_iff, List.mem_filterMap]

/-- When everything is taken down, the work is halted exactly if some claim was refused. -/
theorem Run.isHalted_iff {workers : Nat} {p : Plan} {tree : Tree}
    (h : Run c p.units (Pool.start workers p tree) schedule log pool)
    (hfinished : pool.IsFinished) :
    pool.shared.isHalted = true ↔ ∃ i, Event.refused i ∈ log := by
  rw [h.accounted.halted, List.any_eq_true]
  simp only [h.refused_mem_iff hfinished, isCollision_eq, Option.isSome_iff_exists]
  constructor
  · rintro ⟨r, hr, i, hi⟩
    exact ⟨i, r, hr, hi⟩
  · rintro ⟨i, r, hr, hi⟩
    exact ⟨r, hr, i, hi⟩

/-- Only units that were taken are refused. -/
theorem Run.lt_of_refused {workers : Nat} {p : Plan} {tree : Tree} {i : Nat}
    (h : Run c p.units (Pool.start workers p tree) schedule log pool)
    (hfinished : pool.IsFinished) (hi : Event.refused i ∈ log) :
    i < min pool.shared.taken p.units.length := by
  obtain ⟨⟨j, result⟩, hr, hcollision⟩ := (h.refused_mem_iff hfinished).mp hi
  have hj : j = i := by
    unfold collision? at hcollision
    split at hcollision <;> simp_all
  subst hj
  exact List.mem_range.mp
    (h.accounted.held.subset (List.mem_append_left _ (List.mem_map_of_mem hr)))

/-! ### After the halt -/

/-- Halted work stays halted. -/
theorem Run.isHalted_mono (h : Run c units first schedule log pool)
    (hhalted : first.shared.isHalted = true) : pool.shared.isHalted = true := by
  induction h with
  | start => exact hhalted
  | step _ hstep ih =>
    obtain ⟨_, _, -, -, hstep⟩ := exists_of_step? hstep
    exact hstep.halted_mono ih

/-- Once the work is halted, each unit that is taken has been taken by a worker that was about
to take one. -/
theorem Run.length_took_le (h : Run c units first schedule log pool)
    (hhalted : first.shared.isHalted = true) :
    (log.filterMap Event.took?).length + pool.aboutToTake ≤ first.aboutToTake := by
  induction h with
  | start => simp
  | @step _ log pool worker next hrun hstep ih =>
    obtain ⟨w, w', hw, hworkers, hstep⟩ := exists_of_step? hstep
    obtain ⟨others, hperm, hperm'⟩ := perm_of_set hw w'
    rw [← hworkers] at hperm'
    have hflow := hstep.taking_flow (hrun.isHalted_mono hhalted)
    have hbefore := (hperm.map fun w : Worker => w.phase.isTaking.toNat).sum_nat
    have hafter := (hperm'.map fun w : Worker => w.phase.isTaking.toNat).sum_nat
    rw [List.map_cons, List.sum_cons] at hbefore hafter
    rw [filterMap_append_toList, List.length_append]
    unfold aboutToTake at ih ⊢
    omega

/-- Of each worker at most one unit is counted. -/
theorem sum_isTaking_le (workers : List Worker) :
    (workers.map fun w => w.phase.isTaking.toNat).sum ≤ workers.length := by
  induction workers with
  | nil => exact Nat.le_refl 0
  | cons w workers ih =>
    have hw := Bool.toNat_le w.phase.isTaking
    rw [List.map_cons, List.sum_cons, List.length_cons]
    omega

/-- When the work is halted, the worker that halted it is not about to take a unit. -/
theorem Run.aboutToTake_lt {workers : Nat} {p : Plan} {tree : Tree}
    (h : Run c p.units (Pool.start workers p tree) schedule log pool)
    (hhalted : pool.shared.isHalted = true) : pool.aboutToTake < pool.workers.length := by
  induction h with
  | start => simp [Pool.start] at hhalted
  | @step _ log pool worker next hrun hstep ih =>
    have hlength := (hrun.step hstep).length_workers.trans hrun.length_workers.symm
    cases hrunning : pool.shared.isHalted with
    | true =>
      have hle := (Run.start.step hstep).length_took_le hrunning
      have hlt := ih hrunning
      omega
    | false =>
      obtain ⟨w, w', hw, hworkers, hstep⟩ := exists_of_step? hstep
      obtain ⟨others, -, hperm'⟩ := perm_of_set hw w'
      rw [← hworkers] at hperm'
      have hafter := (hperm'.map fun w : Worker => w.phase.isTaking.toNat).sum_nat
      have hothers := sum_isTaking_le others
      have hlength' := hperm'.length_eq
      rw [List.map_cons, List.sum_cons, hstep.isTaking_of_halts hrunning hhalted] at hafter
      rw [List.length_cons] at hlength'
      unfold aboutToTake
      simp only [Bool.toNat_false] at hafter
      omega

/-! ### Counting what was taken down -/

/-- A record says either that a unit was written or why it failed. -/
theorem length_written_add_length_failures {s : Shared} {l : List (Nat × UnitResult)}
    (h : ∀ r ∈ l, r.1 < units.length) :
    (l.filterMap writtenUnit?).length + (l.filterMap (failure? units s)).length = l.length := by
  induction l with
  | nil => rfl
  | cons r l ih =>
    obtain ⟨i, result⟩ := r
    have hi : i < units.length := h _ List.mem_cons_self
    have hrest := ih fun r hr => h r (List.mem_cons_of_mem _ hr)
    cases result with
    | ok a =>
      have hwritten : writtenUnit? (i, .ok a) = some i := rfl
      rw [List.filterMap_cons_some hwritten, List.filterMap_cons_none rfl, List.length_cons,
        List.length_cons]
      omega
    | error e =>
      have hfailure : failure? units s (i, .error e) =
          some ⟨units[i].target, some (s.source units[i]).relative, e⟩ := by
        rw [failure?, List.getElem?_eq_getElem hi, Option.map_some]
      rw [List.filterMap_cons_none rfl, List.filterMap_cons_some hfailure, List.length_cons,
        List.length_cons]
      omega

end Pool

namespace Project

variable {project : Project} {p : Plan} {tree : Tree} {schedule : List Nat} {log : List Event}
  {pool : Pool} {started finished : Instant}

/-- A report has the failures that were planned and those that workers took down. -/
theorem length_errors_report (p : Plan) (pool : Pool) (started finished : Instant) :
    (report p pool started finished).errors.length =
      p.errors.length + pool.tally.errors.length := by
  unfold report Report.ofTally Report.sortErrors
  dsimp only
  rw [List.length_mergeSort, List.length_append]

/-- What is true of the work on a plan when nobody can take another step: each of the first units
was taken down once, the report counts these and no others, the work was halted exactly if one of
them was refused, and without that they are all units of the plan. -/
structure CountsOnce (p : Plan) (log : List Event) (pool : Pool) (r : Report) (count : Nat) :
    Prop where
  recorded : ((records log).map Prod.fst).Perm (List.range count)
  transformed : r.transformed = (records log).countP (isTransformed p.units)
  passthrough : r.passthrough = (records log).countP (isCopied p.units)
  total : r.transformed + r.passthrough + r.errors.length = p.errors.length + count
  written : r.transformed + r.passthrough = pool.shared.outputs.written
  halted : r.halted = true ↔ ∃ i < count, Event.refused i ∈ log
  all : r.halted = false → count = p.units.length

/-- When nobody can take another step, the report counts each unit that was taken once. -/
theorem EndsIn.countsOnce (h : project.EndsIn p tree log pool) (hworkers : 0 < project.workers) :
    CountsOnce p log pool (report p pool started finished)
      (min pool.shared.taken p.units.length) := by
  obtain ⟨⟨schedule, hrun⟩, -⟩ := id h
  have hbooks := hrun.accounted
  have hfinished := h.isFinished
  have hheld := hbooks.held
  rw [hfinished.atWork_eq_nil, List.append_nil] at hheld
  have hindex : ∀ r ∈ records log, r.1 < p.units.length := fun r hr => hbooks.lt_length hr
  have hrecorded : (records log).length = min pool.shared.taken p.units.length := by
    rw [← List.length_map, hheld.length_eq, List.length_range]
  refine ⟨hheld, hbooks.transformed, hbooks.copied, ?_, ?_, ?_, fun hhalted => ?_⟩
  · -- what is written and what has failed make up the records
    have hsum := Pool.length_written_add_length_failures
      (s := (Pool.start project.workers p tree).shared) hindex
    rw [← countP_isTransformed_add_countP_isCopied hindex, ← hbooks.transformed, ← hbooks.copied,
      ← hbooks.errors.length_eq, hrecorded] at hsum
    have herrors := length_errors_report p pool started finished
    change pool.tally.transformed + pool.tally.passthrough + _ = _
    omega
  · change pool.tally.transformed + pool.tally.passthrough = _
    rw [hbooks.written_eq hfinished, hbooks.written]
  · change pool.shared.isHalted = true ↔ _
    rw [hrun.isHalted_iff hfinished]
    constructor
    · rintro ⟨i, hi⟩
      exact ⟨i, hrun.lt_of_refused hfinished hi, hi⟩
    · rintro ⟨i, -, hi⟩
      exact ⟨i, hi⟩
  · have hperm := hbooks.perm_records hfinished hhalted fun hunits hnone => ?_
    · rw [← hrecorded, ← List.length_map, hperm.length_eq, List.length_range]
    · have hlength := h.length_workers
      have hpos := List.length_pos_iff.mpr hunits
      rw [hnone, List.length_nil] at hlength
      omega

/-- In every order of the steps, units are taken one after the other and none of them twice. When
nobody can take another step, each of them is counted once, and without a refused claim they are
all units of the plan. Once the work is halted, at most one further unit is taken by each worker
other than the one that halted it. -/
theorem run_accounts_for_units (hworkers : 0 < project.workers)
    (h : Pool.Run project.config p.units (Pool.start project.workers p tree) schedule log pool) :
    (∃ count ≤ p.units.length, log.filterMap Event.took? = List.range count ∧
      (pool.IsStuck project.config p.units →
        CountsOnce p log pool (report p pool started finished) count)) ∧
    (pool.shared.isHalted = true → ∀ schedule' log' later,
      Pool.Run project.config p.units pool schedule' log' later →
        (log'.filterMap Event.took?).length ≤ project.workers - 1) := by
  refine ⟨⟨_, Nat.min_le_right pool.shared.taken _, h.accounted.took, fun hstuck => ?_⟩,
    fun hhalted schedule' log' later hlater => ?_⟩
  · have hend : project.EndsIn p tree log pool := ⟨⟨schedule, h⟩, hstuck⟩
    exact hend.countsOnce hworkers
  · have hlength : pool.workers.length = min project.workers p.units.length :=
      h.length_workers.trans List.length_replicate
    have hbefore := h.aboutToTake_lt hhalted
    have hafter := hlater.length_took_le hhalted
    omega

/-- Two workers on a single target. -/
def pairOfWorkers : Project := ⟨⟨none, [Target.new "esm" ⟨"/src"⟩ ⟨"/dist"⟩]⟩, Registry.empty, 2⟩

/-- A tree with three files. -/
def threeFileTree : Tree :=
  ⟨[(["src"], .directory), (["src", "a.js"], .file ⟨#[65]⟩), (["src", "b.js"], .file ⟨#[66]⟩),
    (["src", "c.js"], .file ⟨#[67]⟩)], []⟩

/-- A plan that was not made for the files: two of them go to the same place. -/
def contestedPlan : Plan :=
  { sources := ["a.js", "b.js", "c.js"].map fun name =>
      (Source.new ⟨"/src/" ++ name⟩ ⟨name⟩).retain
    units := [⟨0, "esm", 0, [], ⟨"out.js"⟩, none⟩, ⟨0, "esm", 1, [], ⟨"out.js"⟩, none⟩,
      ⟨0, "esm", 2, [], ⟨"c.js"⟩, none⟩]
    errors := [] }

theorem contestedPlan_accounts_for_units : ∃ schedule log pool,
    Pool.Run pairOfWorkers.config contestedPlan.units
      (Pool.start pairOfWorkers.workers contestedPlan threeFileTree) schedule log pool ∧
    pool.IsStuck pairOfWorkers.config contestedPlan.units ∧
    (report contestedPlan pool ⟨0⟩ ⟨0⟩).halted = true ∧
    (report contestedPlan pool ⟨0⟩ ⟨0⟩).passthrough = 1 ∧
    (∃ count ≤ contestedPlan.units.length, log.filterMap Event.took? = List.range count ∧
      (pool.IsStuck pairOfWorkers.config contestedPlan.units →
        CountsOnce contestedPlan log pool (report contestedPlan pool ⟨0⟩ ⟨0⟩) count)) ∧
    (pool.shared.isHalted = true → ∀ schedule' log' later,
      Pool.Run pairOfWorkers.config contestedPlan.units pool schedule' log' later →
        (log'.filterMap Event.took?).length ≤ pairOfWorkers.workers - 1) := by
  obtain ⟨log, ⟨schedule, hrun⟩, hstuck⟩ :=
    exists_endsIn_run pairOfWorkers contestedPlan threeFileTree
  exact ⟨schedule, log, _, hrun, hstuck, by decide +kernel, by decide +kernel,
    run_accounts_for_units (by decide) hrun⟩

end Project

end Filewise
