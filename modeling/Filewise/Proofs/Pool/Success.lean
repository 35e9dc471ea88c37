import Filewise.Proofs.Plan.Destination
import Filewise.Proofs.Pool.Accounting
import Mathlib.Data.List.Count

/-!
# What success means

A report counts as written what workers took down as written, and these are the units
that were put in place. If a build succeeds, then nobody took down a failure and no
claim was refused, so that every unit was written. There is one way to succeed
otherwise: a configuration that asks for no workers at all, when there is work to do.

## Main results

* `Pool.Accounted.written_eq`: as many units count as written as were put in place.
* `Project.success_iff_all_written`: success means that everything was written, exactly
  if somebody works or there is nothing to do.
-/

namespace Filewise

variable {c : BuildConfig} {units : List PlannedUnit} {s : Shared}

/-! ### Counting what was written -/

/-- A unit that was written counts either as transformed or as copied. -/
theorem countP_isTransformed_add_countP_isCopied {l : List (Nat × UnitResult)}
    (h : ∀ r ∈ l, r.1 < units.length) :
    l.countP (isTransformed units) + l.countP (isCopied units) =
      (l.filterMap writtenUnit?).length := by
  induction l with
  | nil => rfl
  | cons r l ih =>
    obtain ⟨i, result⟩ := r
    have hi : i < units.length := h _ List.mem_cons_self
    have hrest := ih fun r hr => h r (List.mem_cons_of_mem _ hr)
    cases result with
    | error e =>
      rw [List.countP_cons_of_neg (by simp [isTransformed]),
        List.countP_cons_of_neg (by simp [isCopied]), List.filterMap_cons_none rfl, hrest]
    | ok a =>
      have hcons : ((i, .ok a) :: l).filterMap writtenUnit? = i :: l.filterMap writtenUnit? := rfl
      rw [hcons, List.length_cons, ← hrest]
      cases hpass : units[i].isPassthrough with
      | true =>
        rw [List.countP_cons_of_neg (by simp [isTransformed, hi, hpass]),
          List.countP_cons_of_pos (by simp [isCopied, hi, hpass])]
        omega
      | false =>
        rw [List.countP_cons_of_pos (by simp [isTransformed, hi, hpass]),
          List.countP_cons_of_neg (by simp [isCopied, hi, hpass])]
        omega

/-- Without failures every unit was written. -/
theorem filterMap_writtenUnit?_of_failure? {l : List (Nat × UnitResult)}
    (h : ∀ r ∈ l, r.1 < units.length) (hnone : l.filterMap (failure? units s) = []) :
    l.filterMap writtenUnit? = l.map Prod.fst := by
  induction l with
  | nil => rfl
  | cons r l ih =>
    obtain ⟨i, result⟩ := r
    have hi : i < units.length := h _ List.mem_cons_self
    cases result with
    | error e => simp [failure?, hi] at hnone
    | ok a =>
      have hcons : ((i, .ok a) :: l).filterMap writtenUnit? = i :: l.filterMap writtenUnit? := rfl
      rw [List.filterMap_cons_none rfl] at hnone
      rw [hcons, List.map_cons, ih (fun r hr => h r (List.mem_cons_of_mem _ hr)) hnone]

namespace Pool

variable {first pool : Pool} {log : List Event} {i : Nat}

/-- Units that were taken down exist. -/
theorem Accounted.lt_length (h : Accounted units first log pool) {r : Nat × UnitResult}
    (hr : r ∈ records log) : r.1 < units.length := by
  have hmem := h.held.subset (List.mem_append_left _ (List.mem_map_of_mem hr))
  have hlt := List.mem_range.mp hmem
  omega

/-- As many units count as written as were put in place. -/
theorem Accounted.written_eq (h : Accounted units first log pool) (hfinished : pool.IsFinished) :
    pool.tally.transformed + pool.tally.passthrough = (log.filterMap Event.wrote?).length := by
  rw [h.transformed, h.copied,
    countP_isTransformed_add_countP_isCopied fun r hr => h.lt_length hr,
    (h.perm_wrote hfinished).length_eq]

theorem mem_of_wrote (h : i ∈ log.filterMap Event.wrote?) : Event.wrote i ∈ log := by
  obtain ⟨event, hmem, hevent⟩ := List.mem_filterMap.mp h
  cases event with
  | wrote j => exact Option.some_inj.mp hevent ▸ hmem
  | _ => simp [Event.wrote?] at hevent

theorem mem_of_writtenUnit? (h : i ∈ (records log).filterMap writtenUnit?) :
    Event.recorded i (.ok ()) ∈ log := by
  obtain ⟨⟨j, result⟩, hrecord, hwritten⟩ := List.mem_filterMap.mp h
  cases result with
  | error e => simp [writtenUnit?] at hwritten
  | ok _ =>
    obtain rfl : j = i := Option.some_inj.mp hwritten
    exact mem_of_mem_records hrecord

/-- Work that is finished without failures, by at least one worker, has written every unit. -/
theorem Accounted.perm_wrote_of_errors_eq_nil (h : Accounted units first log pool)
    (hfinished : pool.IsFinished) (hhalted : pool.shared.isHalted = false)
    (hworkers : pool.workers ≠ []) (herrors : pool.tally.errors = []) :
    (log.filterMap Event.wrote?).Perm (List.range units.length) := by
  have hnone : (records log).filterMap (failure? units first.shared) = [] := by
    have hperm := h.errors
    rwa [herrors, List.nil_perm] at hperm
  have hwritten := filterMap_writtenUnit?_of_failure? (fun r hr => h.lt_length hr) hnone
  have hrecords := h.perm_records hfinished hhalted fun _ => hworkers
  exact (h.perm_wrote hfinished).trans (hwritten ▸ hrecords)

end Pool

namespace Project

variable {project : Project} {config : BuildConfig} {registry : Registry} {available : Nat}
  {p : Plan} {tree : Tree} {log : List Event} {pool : Pool} {started finished : Instant}

/-- A build succeeds if nothing failed and nothing was left out. -/
theorem errors_eq_nil_of_outcome
    (h : (report p pool started finished).outcome = .success) :
    pool.tally.errors = [] ∧ pool.shared.isHalted = false := by
  unfold Report.outcome report Report.ofTally Report.sortErrors at h
  split_ifs at h with hboth
  simp only [Bool.and_eq_true, List.isEmpty_iff, Bool.not_eq_true'] at hboth
  obtain ⟨hsorted, hhalted⟩ := hboth
  -- sorting an error list does not lose any
  have hperm := List.mergeSort_perm (p.errors ++ pool.tally.errors) fun a b => a.compare b != .gt
  rw [hsorted, List.nil_perm] at hperm
  exact ⟨(List.append_eq_nil_iff.mp hperm).2, hhalted⟩

/-- If a build succeeds, in whatever order the workers took their steps, then every unit was
written, exactly if there is a worker or there is nothing to do. -/
theorem EndsIn.all_written_iff (h : project.EndsIn p tree log pool)
    (hsuccess : (report p pool started finished).outcome = .success) :
    ((report p pool started finished).written = (report p pool started finished).units ∧
      ∀ i < p.units.length, Event.wrote i ∈ log ∧ Event.recorded i (.ok ()) ∈ log) ↔
    project.workers ≠ 0 ∨ p.units = [] := by
  obtain ⟨⟨schedule, hrun⟩, -⟩ := id h
  have hbooks := hrun.accounted
  have hfinished := h.isFinished
  have hlength := h.length_workers
  have hunits : p.units = [] ↔ p.units.length = 0 := List.length_eq_zero_iff.symm
  obtain ⟨herrors, hhalted⟩ := errors_eq_nil_of_outcome hsuccess
  rw [hunits]
  by_cases hworkers : pool.workers = []
  · -- nobody was there to write anything
    have hwritten : (report p pool started finished).written = 0 := by
      change pool.tally.transformed + pool.tally.passthrough = 0
      rw [pool.tally_eq.1, pool.tally_eq.2.1, hworkers]
      rfl
    rw [hworkers, List.length_nil] at hlength
    rw [hwritten]
    constructor
    · rintro ⟨hnone, -⟩
      exact Or.inr hnone.symm
    · intro hcases
      have hnone : p.units.length = 0 := by omega
      exact ⟨hnone.symm, fun i hi => absurd hi (by omega)⟩
  · have hsome : project.workers ≠ 0 := by
      intro hzero
      rw [hzero, Nat.zero_min] at hlength
      exact hworkers (List.length_eq_zero_iff.mp hlength)
    -- everybody has finished without a failure, and so everything is written
    have hwrote := hbooks.perm_wrote_of_errors_eq_nil hfinished hhalted hworkers herrors
    refine iff_of_true ⟨?_, fun i hi => ?_⟩ (Or.inl hsome)
    · change pool.tally.transformed + pool.tally.passthrough = p.units.length
      rw [hbooks.written_eq hfinished, hwrote.length_eq, List.length_range]
    · have hi := hwrote.mem_iff.mpr (List.mem_range.mpr hi)
      exact ⟨Pool.mem_of_wrote hi,
        Pool.mem_of_writtenUnit? ((hbooks.perm_wrote hfinished).mem_iff.mp hi)⟩

/-- If a build succeeds, in whatever order the workers took their steps, then every unit was
written and taken down as written, and as many count as written as were planned. This holds
exactly if the configuration does not ask for no workers at all, or there is nothing to do. -/
theorem success_iff_all_written (havailable : 0 < available)
    (h : (new config registry available).EndsIn p tree log pool)
    (hsuccess : (report p pool started finished).outcome = .success) :
    ((report p pool started finished).written = (report p pool started finished).units ∧
      ∀ i < p.units.length, Event.wrote i ∈ log ∧ Event.recorded i (.ok ()) ∈ log) ↔
    config.concurrency ≠ some 0 ∨ p.units = [] := by
  have hworkers : (new config registry available).workers = 0 ↔ config.concurrency = some 0 := by
    change config.concurrency.getD available = 0 ↔ _
    cases config.concurrency with
    | none => simp [havailable.ne']
    | some n => simp
  rw [h.all_written_iff hsuccess, Ne, hworkers]

/-- A single target, with the number of workers that its configuration asks for. -/
def oneTarget (concurrency : Option Nat) : Project :=
  new ⟨concurrency, [Target.new "esm" ⟨"/src"⟩ ⟨"/dist"⟩]⟩ Registry.empty 1

theorem oneTarget_success_iff_all_written : ∃ pool log,
    (oneTarget none).EndsIn ((oneTarget none).plan oneFileTree) oneFileTree log pool ∧
    (report ((oneTarget none).plan oneFileTree) pool ⟨0⟩ ⟨0⟩).outcome = .success ∧
    (((report ((oneTarget none).plan oneFileTree) pool ⟨0⟩ ⟨0⟩).written =
          (report ((oneTarget none).plan oneFileTree) pool ⟨0⟩ ⟨0⟩).units ∧
        ∀ i < ((oneTarget none).plan oneFileTree).units.length,
          Event.wrote i ∈ log ∧ Event.recorded i (.ok ()) ∈ log) ↔
      (oneTarget none).config.concurrency ≠ some 0 ∨
        ((oneTarget none).plan oneFileTree).units = []) := by
  obtain ⟨log, hend⟩ :=
    exists_endsIn_run (oneTarget none) ((oneTarget none).plan oneFileTree) oneFileTree
  have hsuccess : ((oneTarget none).build oneFileTree ⟨0⟩ ⟨0⟩).report.outcome = .success := by
    decide +kernel
  exact ⟨_, log, hend, hsuccess, success_iff_all_written (by decide) hend hsuccess⟩

/-- A build that asks for no workers can succeed and have written nothing. -/
theorem noWorkers_success_without_writing :
    ((oneTarget (some 0)).build oneFileTree ⟨0⟩ ⟨0⟩).report.outcome = .success ∧
    ((oneTarget (some 0)).build oneFileTree ⟨0⟩ ⟨0⟩).report.units = 1 ∧
    ((oneTarget (some 0)).build oneFileTree ⟨0⟩ ⟨0⟩).report.written = 0 := by
  decide +kernel

end Project

end Filewise
