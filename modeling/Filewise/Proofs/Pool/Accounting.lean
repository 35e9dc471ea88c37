import Filewise.Proofs.Pool.Run

/-!
# Accounting for units

Units are taken one after the other, and each unit that was taken is at one worker or
taken down in the notes of one. What a run writes, what the workers note and whether the
work is halted can therefore be read off the log of the run.

Every rule for steps is looked at once for each quantity: what goes in on one side comes
out on the other. That the books balance after a whole run follows by induction.

## Main definitions

* `records`: how the units went that were taken down, from a log.
* `Pool.Accounted`: the books balance.

## Main results

* `Pool.Run.accounted`: the books balance in every run.
* `Pool.Accounted.perm_records`: finished work that was not halted has taken down
  every unit once.
-/

namespace Filewise

variable {c : BuildConfig} {units : List PlannedUnit}

/-! ### Records -/

/-- How the units went that were taken down, from a log. -/
def records (log : List Event) : List (Nat × UnitResult) := log.filterMap Event.recorded?

/-- The unit of a record that says that the unit was written. -/
def writtenUnit? : Nat × UnitResult → Option Nat
  | (i, .ok ()) => some i
  | (_, .error _) => none

/-- Whether a record is about a claim that was refused. -/
def isCollision : Nat × UnitResult → Bool
  | (_, .error (.outputCollision _ _)) => true
  | _ => false

/-- Whether a record counts as a unit that was transformed. -/
def isTransformed (units : List PlannedUnit) : Nat × UnitResult → Bool
  | (i, .ok ()) => (units[i]?).any fun u => !u.isPassthrough
  | (_, .error _) => false

/-- Whether a record counts as a unit that was copied. -/
def isCopied (units : List PlannedUnit) : Nat × UnitResult → Bool
  | (i, .ok ()) => (units[i]?).any fun u => u.isPassthrough
  | (_, .error _) => false

/-- The failure that a record is about, with the path of the source as it is shown. -/
def failure? (units : List PlannedUnit) (s : Shared) : Nat × UnitResult → Option UnitError
  | (_, .ok ()) => none
  | (i, .error e) => (units[i]?).map fun u => ⟨u.target, some (s.source u).relative, e⟩

namespace Worker.Step

variable {s s' : Shared} {y : Tally} {phase : Phase} {event : Option Event} {w' : Worker}

/-! ### What goes in and out in a step -/

/-- A unit that is taken is at its worker until it is taken down. -/
theorem units_flow (h : Step c units s y phase event s' w') :
    ((event.bind Event.recorded?).map Prod.fst).toList ++ w'.phase.unit?.toList =
      phase.unit?.toList ++ (event.bind Event.took?).toList := by
  cases h with
  | release _ _ => split_ifs <;> rfl
  | _ => rfl

/-- Units are taken in order. -/
theorem taken_flow (h : Step c units s y phase event s' w') :
    List.range (min s'.taken units.length) =
      List.range (min s.taken units.length) ++ (event.bind Event.took?).toList := by
  -- most steps take nothing
  have hsame : s'.taken = s.taken → event.bind Event.took? = none →
      List.range (min s'.taken units.length) =
        List.range (min s.taken units.length) ++ (event.bind Event.took?).toList := by
    intro htaken hnone
    rw [htaken, hnone, Option.toList_none, List.append_nil]
  cases h with
  | take hlt =>
    have hmin : min s.taken units.length = s.taken := by omega
    have hmin' : min (s.taken + 1) units.length = s.taken + 1 := by omega
    simp only [hmin, hmin', List.range_succ]
    rfl
  | nothingLeft hlt =>
    have hmin : min (s.taken + 1) units.length = min s.taken units.length := by omega
    simp only [hmin, Option.bind_none, Option.toList_none, List.append_nil]
  | halt | look | claimFails | drop => exact hsame rfl rfl
  | convert _ h | convertFails _ h => exact hsame (by rw [Shared.convert_frame h]) rfl
  | claim _ h => exact hsame (by rw [Shared.claim_frame h]) rfl
  | makeDirectory _ h | makeDirectoryFails _ h =>
    exact hsame (by rw [Shared.makeDirectory_frame h]) rfl
  | place _ h | placeFails _ h => exact hsame (by rw [Shared.place_frame h]) rfl
  | release _ h => exact hsame (by rw [Shared.release_frame h]) rfl
  | record _ => exact hsame (by rw [Shared.haltAfter_frame s]) rfl

/-- A unit that is written is at its worker as a written one until it is taken down. -/
theorem written_flow (h : Step c units s y phase event s' w') :
    ((event.bind Event.recorded?).bind writtenUnit?).toList ++
        (w'.phase.result?.bind writtenUnit?).toList =
      (phase.result?.bind writtenUnit?).toList ++ (event.bind Event.wrote?).toList := by
  cases h with
  | @release i result _ _ _ _ _ =>
    split_ifs <;> cases result <;> rfl
  | @record i result _ _ => cases result <;> rfl
  | @drop i result _ _ => cases result <;> rfl
  | _ => rfl

/-- The files that were written are counted. -/
theorem count_flow (h : Step c units s y phase event s' w') :
    s'.outputs.written = s.outputs.written + (event.bind Event.wrote?).toList.length := by
  cases h with
  | halt | look | take | nothingLeft | claimFails | drop => rfl
  | convert _ h | convertFails _ h => rw [Shared.convert_frame h]; rfl
  | claim _ h => exact Shared.claim_written h
  | makeDirectory _ h | makeDirectoryFails _ h => rw [Shared.makeDirectory_frame h]; rfl
  | place _ h =>
    obtain ⟨tree, -, rfl⟩ := Shared.exists_of_place h
    rfl
  | placeFails _ h =>
    obtain ⟨rfl, -⟩ := Shared.exists_of_placeFails h
    rfl
  | release _ h => rw [Shared.release_frame h]; rfl
  | record _ => rw [Shared.haltAfter_frame s]; rfl

/-- A unit that is taken down is counted, or its failure is kept. -/
theorem tally_flow (h : Step c units s y phase event s' w') :
    w'.tally.transformed =
        y.transformed + (event.bind Event.recorded?).toList.countP (isTransformed units) ∧
      w'.tally.passthrough =
        y.passthrough + (event.bind Event.recorded?).toList.countP (isCopied units) ∧
      w'.tally.errors =
        y.errors ++ (event.bind Event.recorded?).toList.filterMap (failure? units s) := by
  cases h with
  | @record i result u hu =>
    cases result with
    | ok _ =>
      cases hpass : u.isPassthrough <;>
        simp [Event.recorded?, isTransformed, isCopied, failure?, Tally.add, hu, hpass]
    | error e => simp [Event.recorded?, isTransformed, isCopied, failure?, Tally.add, hu]
  | _ => simp [Event.recorded?]

/-- The work is halted when a refused claim is taken down. -/
theorem halted_flow (h : Step c units s y phase event s' w') :
    s'.isHalted = (s.isHalted || (event.bind Event.recorded?).toList.any isCollision) := by
  cases h with
  | halt | look | take | nothingLeft | claimFails => simp [Event.recorded?]
  | drop => simp [Shared.drop]
  | convert _ h | convertFails _ h => rw [Shared.convert_frame h]; simp
  | claim _ h => rw [Shared.claim_frame h]; simp
  | makeDirectory _ h | makeDirectoryFails _ h => rw [Shared.makeDirectory_frame h]; simp
  | place _ h | placeFails _ h => rw [Shared.place_frame h]; simp [Event.recorded?]
  | release _ h => rw [Shared.release_frame h]; simp
  | @record i result _ _ =>
    unfold Shared.haltAfter
    split <;> simp_all [Event.recorded?, isCollision]

/-- A worker finishes when the work is halted or there are no more units. -/
theorem finished_iff (h : Step c units s y phase event s' w') (hphase : w'.phase = .finished) :
    s'.isHalted = true ∨ units.length ≤ s'.taken := by
  cases h with
  | halt hhalted => exact Or.inl hhalted
  | nothingLeft hlt => exact Or.inr (by simp only; omega)
  | release _ _ => split_ifs at hphase
  | _ => simp at hphase

/-- What was taken stays taken. -/
theorem taken_le (h : Step c units s y phase event s' w') : s.taken ≤ s'.taken := by
  rcases h.taken_eq with htaken | ⟨-, htaken⟩ <;> omega

end Worker.Step

namespace Pool

variable {first pool next : Pool} {worker : Nat} {schedule : List Nat} {log : List Event}

/-! ### The books balance -/

/-- What the workers have noted together. -/
theorem tally_eq (pool : Pool) :
    pool.tally.transformed = (pool.workers.map fun w => w.tally.transformed).sum ∧
      pool.tally.passthrough = (pool.workers.map fun w => w.tally.passthrough).sum ∧
      pool.tally.errors = pool.workers.flatMap fun w => w.tally.errors := by
  -- the notes are added up from any start
  have hfold : ∀ (workers : List Worker) (y : Tally),
      workers.foldl (fun y w => (⟨y.transformed + w.tally.transformed,
        y.passthrough + w.tally.passthrough, y.errors ++ w.tally.errors⟩ : Tally)) y =
      ⟨y.transformed + (workers.map fun w => w.tally.transformed).sum,
        y.passthrough + (workers.map fun w => w.tally.passthrough).sum,
        y.errors ++ workers.flatMap fun w => w.tally.errors⟩ := by
    intro workers
    induction workers with
    | nil => simp
    | cons w workers ih =>
      intro y
      rw [List.foldl_cons, ih]
      simp [Nat.add_assoc]
  rw [tally, hfold]
  simp [Tally.empty]

/-- The units that workers are at. -/
def atWork (pool : Pool) : List Nat := pool.workers.flatMap fun w => w.phase.unit?.toList

/-- The units that workers are at and that are written. -/
def writtenAtWork (pool : Pool) : List Nat :=
  pool.workers.flatMap fun w => (w.phase.result?.bind writtenUnit?).toList

/-- The books balance: units were taken in order, each of them is at a worker or taken down,
and the files that were written, the notes of the workers and whether the work is halted all
come from the log. -/
structure Accounted (units : List PlannedUnit) (first : Pool) (log : List Event) (pool : Pool) :
    Prop where
  files : Shared.SameFiles first.shared pool.shared
  took : log.filterMap Event.took? = List.range (min pool.shared.taken units.length)
  held : ((records log).map Prod.fst ++ pool.atWork).Perm
    (List.range (min pool.shared.taken units.length))
  wrote : (log.filterMap Event.wrote?).Perm
    ((records log).filterMap writtenUnit? ++ pool.writtenAtWork)
  written : pool.shared.outputs.written = (log.filterMap Event.wrote?).length
  transformed : pool.tally.transformed = (records log).countP (isTransformed units)
  copied : pool.tally.passthrough = (records log).countP (isCopied units)
  errors : pool.tally.errors.Perm ((records log).filterMap (failure? units first.shared))
  halted : pool.shared.isHalted = (records log).any isCollision
  finished : ∀ w ∈ pool.workers, w.phase = .finished →
    pool.shared.isHalted = true ∨ units.length ≤ pool.shared.taken

theorem records_append (log : List Event) (event : Option Event) :
    records (log ++ event.toList) = records log ++ (event.bind Event.recorded?).toList := by
  unfold records
  cases event with
  | none => simp
  | some e => cases he : e.recorded? <;> simp [he]

/-- A record is an event of the log. -/
theorem mem_of_mem_records {r : Nat × UnitResult} (h : r ∈ records log) :
    Event.recorded r.1 r.2 ∈ log := by
  obtain ⟨event, hmem, hevent⟩ := List.mem_filterMap.mp h
  cases event with
  | recorded i result =>
    obtain rfl := Option.some_inj.mp hevent
    exact hmem
  | _ => simp [Event.recorded?] at hevent

theorem filterMap_append_toList {α : Type} (f : Event → Option α) (log : List Event)
    (event : Option Event) :
    (log ++ event.toList).filterMap f = log.filterMap f ++ (event.bind f).toList := by
  cases event with
  | none => simp
  | some e => cases he : f e <;> simp [he]

theorem filterMap_toList {α β : Type} (f : α → Option β) (a : Option α) :
    a.toList.filterMap f = (a.bind f).toList := by
  cases a with
  | none => rfl
  | some a => cases ha : f a <;> simp [ha]

theorem failure?_congr {s s' : Shared} (h : Shared.SameFiles s s') :
    failure? units s' = failure? units s := by
  funext ⟨i, result⟩
  cases result with
  | ok _ => rfl
  | error e => simp [failure?, (h.source_eq _).2]

/-- What the workers have counted together grows by what one of them counts. -/
theorem sum_of_flow {workers workers' others : List Worker} {w w' : Worker} {f : Worker → Nat}
    {all counted : Nat} (h : workers.Perm (w :: others)) (h' : workers'.Perm (w' :: others))
    (hall : (workers.map f).sum = all) (hflow : f w' = f w + counted) :
    (workers'.map f).sum = all + counted := by
  have hbefore := (h.map f).sum_nat
  have hafter := (h'.map f).sum_nat
  rw [List.map_cons, List.sum_cons] at hbefore hafter
  omega

/-- What is settled and what the workers hold together changes by what comes in, if what goes
in at one of them comes out there. -/
theorem perm_of_flow {β : Type} [DecidableEq β] {workers workers' others : List Worker}
    {w w' : Worker} {f : Worker → List β} {done out all new : List β}
    (h : workers.Perm (w :: others)) (h' : workers'.Perm (w' :: others))
    (hall : (done ++ workers.flatMap f).Perm all) (hflow : out ++ f w' = f w ++ new) :
    (done ++ out ++ workers'.flatMap f).Perm (all ++ new) := by
  -- everything is counted, as the workers are in no particular order
  apply List.perm_iff_count.mpr
  intro b
  have hbefore := (h.flatMap_right f).count_eq b
  have hafter := (h'.flatMap_right f).count_eq b
  have hcount := hall.count_eq b
  have hflow := congrArg (List.count b) hflow
  simp only [List.flatMap_cons, List.count_append] at hbefore hafter hcount hflow ⊢
  omega

/-- The books balance after a step if they did before. -/
theorem Accounted.step (h : Accounted units first log pool)
    (hstep : pool.step? c units worker = some next) :
    Accounted units first (log ++ (pool.event? units worker).toList) next := by
  obtain ⟨w, w', hw, hworkers, hstep⟩ := exists_of_step? hstep
  obtain ⟨others, hperm, hperm'⟩ := perm_of_set hw w'
  rw [← hworkers] at hperm'
  generalize pool.event? units worker = event at hstep ⊢
  obtain ⟨htransformed, hcopied, herrors⟩ := hstep.tally_flow
  have hrecords := records_append log event
  refine ⟨h.files.trans hstep.sameFiles, ?_, ?_, ?_, ?_, ?_, ?_, ?_, ?_, ?_⟩
  · rw [filterMap_append_toList, h.took, hstep.taken_flow]
  · have hflow := hstep.units_flow
    rw [Option.toList_map] at hflow
    rw [hrecords, hstep.taken_flow, List.map_append]
    exact perm_of_flow hperm hperm' h.held hflow
  · rw [hrecords, filterMap_append_toList, List.filterMap_append, filterMap_toList]
    exact (perm_of_flow hperm hperm' h.wrote.symm hstep.written_flow).symm
  · rw [filterMap_append_toList, List.length_append, hstep.count_flow, h.written]
  · rw [next.tally_eq.1, hrecords, List.countP_append]
    exact sum_of_flow hperm hperm' (pool.tally_eq.1.symm.trans h.transformed) htransformed
  · rw [next.tally_eq.2.1, hrecords, List.countP_append]
    exact sum_of_flow hperm hperm' (pool.tally_eq.2.1.symm.trans h.copied) hcopied
  · rw [failure?_congr h.files] at herrors
    rw [next.tally_eq.2.2, hrecords, List.filterMap_append]
    -- nothing is taken out of the notes of a worker
    have hall : ([] ++ pool.workers.flatMap fun w : Worker => w.tally.errors).Perm
        ((records log).filterMap (failure? units first.shared)) := pool.tally_eq.2.2 ▸ h.errors
    have hflow := (List.nil_append w'.tally.errors).trans herrors
    exact perm_of_flow hperm hperm' hall hflow
  · rw [hstep.halted_flow, h.halted, hrecords, List.any_append]
  · -- a worker that has finished stays so, for what it found stays true
    intro v hv hphase
    rw [hworkers] at hv
    rcases List.mem_or_eq_of_mem_set hv with hv | rfl
    · rw [hstep.halted_flow]
      refine (h.finished v hv hphase).imp (fun hhalted => ?_) fun htaken => ?_
      · rw [hhalted, Bool.true_or]
      · exact Nat.le_trans htaken hstep.taken_le
    · exact hstep.finished_iff hphase

theorem unit?_of_writtenUnit? {phase : Phase} {i : Nat}
    (h : phase.result?.bind writtenUnit? = some i) : phase.unit? = some i := by
  obtain ⟨⟨i', result⟩, hresult, hwritten⟩ := Option.bind_eq_some_iff.mp h
  cases result with
  | error e => simp [writtenUnit?] at hwritten
  | ok _ =>
    obtain rfl := Option.some_inj.mp hwritten
    cases phase <;> simp_all [Phase.result?, Phase.unit?]

/-- A unit at a worker that does not know yet how the unit goes is not written. -/
theorem Accounted.notMem_wrote {w : Worker} {i : Nat} (h : Accounted units first log pool)
    (hw : pool.workers[worker]? = some w) (hunit : w.phase.unit? = some i)
    (hresult : w.phase.result? = none) : i ∉ log.filterMap Event.wrote? := by
  obtain ⟨others, hperm, -⟩ := perm_of_set hw w
  have hwork := hperm.flatMap_right fun w => w.phase.unit?.toList
  have hwritten := hperm.flatMap_right fun w => (w.phase.result?.bind writtenUnit?).toList
  rw [List.flatMap_cons, hunit] at hwork
  rw [List.flatMap_cons, hresult] at hwritten
  -- the unit is held by this worker, and nobody holds it twice
  have hnodup : ((records log).map Prod.fst ++
      (i :: others.flatMap fun w => w.phase.unit?.toList)).Nodup :=
    ((hwork.append_left _).symm.trans h.held).nodup_iff.mpr List.nodup_range
  rw [List.nodup_append, List.nodup_cons] at hnodup
  intro hmem
  rcases List.mem_append.mp (h.wrote.mem_iff.mp hmem) with hmem | hmem
  · obtain ⟨⟨i', result⟩, hrecord, hi⟩ := List.mem_filterMap.mp hmem
    cases result with
    | error e => simp [writtenUnit?] at hi
    | ok _ =>
      obtain rfl := Option.some_inj.mp hi
      exact hnodup.2.2 i' (List.mem_map_of_mem hrecord) i' List.mem_cons_self rfl
  · obtain ⟨v, hv, hi⟩ := List.mem_flatMap.mp (hwritten.mem_iff.mp hmem)
    refine hnodup.2.1.1 (List.mem_flatMap.mpr ⟨v, hv, ?_⟩)
    rw [Option.mem_toList] at hi ⊢
    exact unit?_of_writtenUnit? hi

/-- The books balance before the first step. -/
theorem accounted_start (workers : Nat) (p : Plan) (tree : Tree) :
    Accounted p.units (start workers p tree) [] (start workers p tree) := by
  have hwork : ∀ {α : Type} (f : Worker → List α), f ⟨.looking, Tally.empty⟩ = [] →
      (start workers p tree).workers.flatMap f = [] := by
    intro α f hf
    apply List.flatMap_eq_nil_iff.mpr
    intro w hw
    rw [List.eq_of_mem_replicate hw, hf]
  have hsum : ∀ f : Worker → Nat, f ⟨.looking, Tally.empty⟩ = 0 →
      ((start workers p tree).workers.map f).sum = 0 := by
    intro f hf
    rw [start, List.map_replicate, hf, List.sum_replicate_nat, Nat.mul_zero]
  refine ⟨Shared.SameFiles.refl _, by simp [start], ?_, ?_, rfl, ?_, ?_, ?_, rfl, ?_⟩
  · rw [atWork, hwork _ rfl]
    simp [start, records]
  · rw [writtenAtWork, hwork _ rfl]
    rfl
  · rw [(start workers p tree).tally_eq.1, hsum _ rfl]
    rfl
  · rw [(start workers p tree).tally_eq.2.1, hsum _ rfl]
    rfl
  · rw [(start workers p tree).tally_eq.2.2, hwork _ rfl]
    rfl
  · intro w hw hphase
    rw [List.eq_of_mem_replicate hw] at hphase
    simp at hphase

/-- The books balance in every run. -/
theorem Run.accounted {workers : Nat} {p : Plan} {tree : Tree}
    (h : Run c p.units (Pool.start workers p tree) schedule log pool) :
    Accounted p.units (Pool.start workers p tree) log pool := by
  induction h with
  | start => exact accounted_start workers p tree
  | step _ hstep ih => exact ih.step hstep

/-! ### Finished work -/

theorem IsFinished.atWork_eq_nil (h : pool.IsFinished) : pool.atWork = [] :=
  List.flatMap_eq_nil_iff.mpr fun w hw => by
    rw [h w hw]
    rfl

theorem IsFinished.writtenAtWork_eq_nil (h : pool.IsFinished) : pool.writtenAtWork = [] :=
  List.flatMap_eq_nil_iff.mpr fun w hw => by
    rw [h w hw]
    rfl

/-- Finished work that was not halted has taken down every unit once, if there was anybody to
do it. -/
theorem Accounted.perm_records (h : Accounted units first log pool) (hfinished : pool.IsFinished)
    (hhalted : pool.shared.isHalted = false) (hworkers : units ≠ [] → pool.workers ≠ []) :
    ((records log).map Prod.fst).Perm (List.range units.length) := by
  have htaken : units.length ≤ pool.shared.taken := by
    by_cases hunits : units = []
    · rw [hunits]
      exact Nat.zero_le _
    · obtain ⟨w, hw⟩ := List.exists_mem_of_ne_nil _ (hworkers hunits)
      exact (h.finished w hw (hfinished w hw)).resolve_left (by simp [hhalted])
  have hheld := h.held
  rwa [hfinished.atWork_eq_nil, List.append_nil, Nat.min_eq_right htaken] at hheld

/-- Finished work has taken down every unit that it wrote. -/
theorem Accounted.perm_wrote (h : Accounted units first log pool) (hfinished : pool.IsFinished) :
    (log.filterMap Event.wrote?).Perm ((records log).filterMap writtenUnit?) := by
  have hwrote := h.wrote
  rwa [hfinished.writtenAtWork_eq_nil, List.append_nil] at hwrote

end Pool

end Filewise
