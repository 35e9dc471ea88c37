import Filewise.Proofs.Pool.Halt
import Filewise.Proofs.Pool.Schedule

/-!
# Claims on a plan

The planner puts no two units of one target at the same place, and the targets of a valid
configuration have different ids. A unit that claims its place therefore finds it claimed by
nobody, or by itself: whatever else goes wrong, the work on a plan is not halted.

## Main definitions

* `HasApartOutputs`: units for targets of one name go to different places.
* `Shared.ClaimsOf`, `Phase.ClaimsFor`: claims are made for units, by the names of their
  targets.

## Main results

* `Worker.Step.claimsOf`: no step of a worker is a refused claim.
* `Pool.Run.refused_notMem`: no run has one.
* `Project.plan_never_collides`: the work on a plan adds no collision and is not halted.
-/

namespace Filewise

/-- Units for targets of one name go to different places. -/
def HasApartOutputs (units : List PlannedUnit) : Prop :=
  units.Pairwise fun u v => u.target = v.target → u.outputPath.same v.outputPath = false

/-- Units that go to the same place for targets of one name are one unit. -/
theorem HasApartOutputs.eq_of_same {units : List PlannedUnit} {u v : PlannedUnit}
    (h : HasApartOutputs units) (hu : u ∈ units) (hv : v ∈ units) (htarget : u.target = v.target)
    (hsame : u.outputPath.same v.outputPath = true) : u = v := by
  have hsymm : Std.Symm fun u v : PlannedUnit =>
      u.target = v.target → u.outputPath.same v.outputPath = false :=
    ⟨fun u v h htarget => by rw [Path.same_comm]; exact h htarget.symm⟩
  by_contra hne
  have hapart := h.forall hu hv hne htarget
  rw [hsame] at hapart
  simp at hapart

/-! ### Claims -/

namespace Outputs

variable {o o' : Outputs} {target : String} {path source : Path}

/-- A claim adds at most itself. -/
theorem mem_of_claim {claim : Claim} (h : o.claim target path source = .ok o')
    (hclaim : claim ∈ o'.claims) : claim ∈ o.claims ∨ claim = ⟨target, path, source⟩ := by
  unfold Outputs.claim at h
  split at h
  · obtain rfl := Except.ok.inj h
    rcases List.mem_append.mp hclaim with hclaim | hclaim
    · exact Or.inl hclaim
    · exact Or.inr (List.mem_singleton.mp hclaim)
  · split_ifs at h
    obtain rfl := Except.ok.inj h
    exact Or.inl hclaim

/-- A claim is refused on account of one by another source. -/
theorem exists_of_claim_error {e : WriteError} (h : o.claim target path source = .error e) :
    ∃ claim ∈ o.claims, claim.target = target ∧ claim.path.same path = true ∧
      claim.owner.same source = false := by
  unfold Outputs.claim at h
  split at h
  · simp at h
  · rename_i owner howner
    split_ifs at h with hsame
    obtain ⟨claim, hfind, rfl⟩ := Option.map_eq_some_iff.mp howner
    have hmatch := List.find?_some hfind
    simp only [Bool.and_eq_true, beq_iff_eq] at hmatch
    exact ⟨claim, List.mem_of_find?_eq_some hfind, hmatch.1, hmatch.2, by simpa using hsame⟩

end Outputs

/-- Every claim was made for a unit, by the name of its target and of its source. -/
structure Shared.ClaimsOf (s first : Shared) (units : List PlannedUnit) : Prop where
  files : Shared.SameFiles first s
  claims : ∀ claim ∈ s.outputs.claims, ∃ u ∈ units,
    claim = ⟨u.target, u.outputPath, (first.source u).relative⟩

/-- A worker that is about to claim does so for the target that its unit names. -/
def Phase.ClaimsFor (units : List PlannedUnit) : Phase → Prop
  | .claiming i t _ => ∃ u, units[i]? = some u ∧ u.target = t.id
  | _ => True

variable {c : BuildConfig} {units : List PlannedUnit} {first s s' : Shared} {u : PlannedUnit}
  {t : Target}

/-- The target that a unit is converted for is the one that it names. -/
theorem Shared.target_eq_of_convert {content : ByteArray}
    (h : s.convert c u = (s', .ok (t, content))) : u.target = t.id := by
  unfold Shared.convert at h
  cases htarget : c.targetOf u (s.source u).relative with
  | error e => simp [htarget] at h
  | ok t' =>
    have hid : u.target = t'.id := by
      unfold BuildConfig.targetOf at htarget
      split at htarget
      · rename_i found hfound
        obtain rfl := Except.ok.inj htarget
        have hid := (Option.filter_eq_some_iff.mp hfound).2
        exact (beq_iff_eq.mp hid).symm
      · simp at htarget
    rw [htarget] at h
    dsimp only at h
    split at h
    · simp at h
    · rename_i raw _
      cases hconvert : Filewise.convert t' u.steps raw with
      | error e => simp [hconvert, Functor.map, Except.map] at h
      | ok result =>
        rw [hconvert] at h
        obtain ⟨rfl, -⟩ := Prod.mk.inj (Except.ok.inj (Prod.mk.inj h).2)
        exact hid

namespace Shared.ClaimsOf

/-- What changes neither claims nor files keeps what is known of claims. -/
theorem congr (h : s.ClaimsOf first units) (hfiles : Shared.SameFiles s s')
    (hclaims : s'.outputs.claims = s.outputs.claims) : s'.ClaimsOf first units :=
  ⟨h.files.trans hfiles, hclaims ▸ h.claims⟩

/-- A claim that is granted is one more claim for a unit. -/
theorem claim (h : s.ClaimsOf first units) (hu : u ∈ units) (htarget : u.target = t.id)
    (hclaim : s.claim t u = .ok s') : s'.ClaimsOf first units := by
  refine ⟨h.files.trans (SameFiles.of_sources_eq (by rw [claim_frame hclaim])), ?_⟩
  intro claim hmem
  unfold Shared.claim at hclaim
  dsimp only at hclaim
  split at hclaim
  · rename_i outputs houtputs
    obtain rfl := Except.ok.inj hclaim
    rcases Outputs.mem_of_claim houtputs hmem with hmem | rfl
    · exact h.claims claim hmem
    · exact ⟨u, hu, by rw [htarget, (h.files.source_eq u).2]⟩
  · simp at hclaim

/-- If units go to different places, each of them is granted its own. -/
theorem claim_ne_error {e : BuildError} (h : s.ClaimsOf first units)
    (hapart : HasApartOutputs units) (hu : u ∈ units) (htarget : u.target = t.id) :
    s.claim t u ≠ .error e := by
  intro hclaim
  unfold Shared.claim at hclaim
  dsimp only at hclaim
  split at hclaim
  · simp at hclaim
  · rename_i refusal hrefusal
    obtain ⟨claim, hmem, hid, hsame, howner⟩ := Outputs.exists_of_claim_error hrefusal
    obtain ⟨v, hv, rfl⟩ := h.claims claim hmem
    -- whoever claimed the place goes there, and only the unit itself does
    obtain rfl := hapart.eq_of_same hv hu (hid.trans htarget.symm) hsame
    rw [(h.files.source_eq v).2, Path.same_refl] at howner
    simp at howner

end Shared.ClaimsOf

/-- Where units go to different places, no step of a worker is a refused claim. -/
theorem Worker.Step.claimsOf {y : Tally} {phase : Phase} {event : Option Event} {w' : Worker}
    (h : Worker.Step c units s y phase event s' w') (hapart : HasApartOutputs units)
    (hs : s.ClaimsOf first units) (hphase : phase.ClaimsFor units) :
    s'.ClaimsOf first units ∧ w'.phase.ClaimsFor units ∧ event.bind Event.refused? = none := by
  have hfiles := h.sameFiles
  cases h with
  | halt | look | take | nothingLeft => exact ⟨hs.congr hfiles rfl, trivial, rfl⟩
  | convert hu hconvert =>
    refine ⟨hs.congr hfiles (by rw [Shared.convert_frame hconvert]), ?_, rfl⟩
    exact ⟨_, hu, Shared.target_eq_of_convert hconvert⟩
  | convertFails _ hconvert =>
    exact ⟨hs.congr hfiles (by rw [Shared.convert_frame hconvert]), trivial, rfl⟩
  | claim hu hclaim =>
    obtain ⟨v, hv, htarget⟩ := hphase
    obtain rfl := Option.some_inj.mp (hu.symm.trans hv)
    exact ⟨hs.claim (List.mem_of_getElem? hu) htarget hclaim, trivial, rfl⟩
  | claimFails hu hclaim =>
    obtain ⟨v, hv, htarget⟩ := hphase
    obtain rfl := Option.some_inj.mp (hu.symm.trans hv)
    exact absurd hclaim (hs.claim_ne_error hapart (List.mem_of_getElem? hu) htarget)
  | makeDirectory _ hmake | makeDirectoryFails _ hmake =>
    exact ⟨hs.congr hfiles (by rw [Shared.makeDirectory_frame hmake]), trivial, rfl⟩
  | place _ hplace =>
    obtain ⟨tree, -, rfl⟩ := Shared.exists_of_place hplace
    exact ⟨hs.congr hfiles rfl, trivial, rfl⟩
  | placeFails _ hplace =>
    obtain ⟨rfl, -⟩ := Shared.exists_of_placeFails hplace
    exact ⟨hs, trivial, rfl⟩
  | release _ hrelease =>
    refine ⟨hs.congr hfiles (by rw [Shared.release_frame hrelease]), ?_, rfl⟩
    split_ifs <;> exact trivial
  | drop _ => exact ⟨hs.congr hfiles rfl, trivial, rfl⟩
  | record _ => exact ⟨hs.congr hfiles (by rw [Shared.haltAfter_frame s]), trivial, rfl⟩

/-! ### Runs -/

namespace Pool

variable {pool : Pool} {workers : Nat} {schedule : List Nat} {log : List Event} {p : Plan}
  {tree : Tree}

/-- In every run on units that go to different places, claims are made for units, by workers
that are at them. -/
theorem Run.claimsOf (h : Run c p.units (Pool.start workers p tree) schedule log pool)
    (hapart : HasApartOutputs p.units) :
    pool.shared.ClaimsOf (Pool.start workers p tree).shared p.units ∧
      (∀ w ∈ pool.workers, w.phase.ClaimsFor p.units) ∧ log.filterMap Event.refused? = [] := by
  induction h with
  | start =>
    refine ⟨⟨Shared.SameFiles.refl _, by simp [Pool.start, Outputs.empty]⟩, fun w hw => ?_, rfl⟩
    rw [List.eq_of_mem_replicate hw]
    exact trivial
  | step _ hstep ih =>
    obtain ⟨hshared, hphases, hlog⟩ := ih
    obtain ⟨w, w', hw, hworkers, hstep⟩ := exists_of_step? hstep
    obtain ⟨hshared', hphase', hevent⟩ :=
      hstep.claimsOf hapart hshared (hphases w (List.mem_of_getElem? hw))
    refine ⟨hshared', fun v hv => ?_, ?_⟩
    · rw [hworkers] at hv
      rcases List.mem_or_eq_of_mem_set hv with hv | rfl
      · exact hphases v hv
      · exact hphase'
    · rw [filterMap_append_toList, hlog, hevent]
      rfl

/-- No run on units that go to different places has a refused claim. -/
theorem Run.refused_notMem (h : Run c p.units (Pool.start workers p tree) schedule log pool)
    (hapart : HasApartOutputs p.units) (i : Nat) : Event.refused i ∉ log := by
  rw [← mem_refused, (h.claimsOf hapart).2.2]
  exact List.not_mem_nil

/-- Nothing that is taken down is a collision. -/
theorem Run.isCollision_eq_false
    (h : Run c p.units (Pool.start workers p tree) schedule log pool)
    (hapart : HasApartOutputs p.units) : ∀ r ∈ records log, isCollision r = false := by
  have hperm := h.perm_refused
  rw [(h.claimsOf hapart).2.2, List.nil_perm] at hperm
  have hnone := List.filterMap_eq_nil_iff.mp (List.append_eq_nil_iff.mp hperm).1
  intro r hr
  rw [isCollision_eq, hnone r hr]
  rfl

/-- The work is not halted. -/
theorem Run.isHalted_eq_false (h : Run c p.units (Pool.start workers p tree) schedule log pool)
    (hapart : HasApartOutputs p.units) : pool.shared.isHalted = false := by
  rw [h.accounted.halted, List.any_eq_false]
  intro r hr
  rw [h.isCollision_eq_false hapart r hr]
  simp

/-- No worker notes a collision. -/
theorem Run.kind_ne (h : Run c p.units (Pool.start workers p tree) schedule log pool)
    (hapart : HasApartOutputs p.units) :
    ∀ e ∈ pool.tally.errors, e.error.kind ≠ .outputCollision := by
  intro e he
  obtain ⟨⟨i, result⟩, hr, hfailure⟩ :=
    List.mem_filterMap.mp (h.accounted.errors.mem_iff.mp he)
  have hnot := h.isCollision_eq_false hapart _ hr
  cases result with
  | ok _ => simp [failure?] at hfailure
  | error cause =>
    obtain ⟨u, -, rfl⟩ := Option.map_eq_some_iff.mp hfailure
    cases cause with
    | outputCollision path sources => simp [isCollision] at hnot
    | registry cause => cases cause <;> simp [BuildError.kind]
    | _ => simp [BuildError.kind]

end Pool

/-! ### The work on a plan -/

namespace Project

variable {project : Project} {tree tree' : Tree} {workers : Nat} {schedule : List Nat}
  {log : List Event} {pool : Pool} {started finished : Instant}

/-- The units of a plan for a valid configuration go to different places, also by the names of
their targets. -/
theorem IsPlan.hasApartOutputs {sources : List Source} {units : List PlannedUnit}
    (h : project.IsPlan tree sources units) (hvalid : project.config.fault? = none) :
    HasApartOutputs units := by
  refine h.apart.imp_of_mem fun {u v} hu hv hapart htarget => (hapart ?_).2
  obtain ⟨t, _, hplanned⟩ := h.planned u hu
  obtain ⟨t', _, hplanned'⟩ := h.planned v hv
  have hid : t.id = t'.id := by rw [← hplanned.target, ← hplanned'.target, htarget]
  exact BuildConfig.index_eq_of_id hvalid hplanned.target? hplanned'.target? hid

/-- The collisions in a report are those of the plan if the work adds none. -/
theorem perm_collisions_report {p : Plan}
    (h : ∀ e ∈ pool.tally.errors, e.error.kind ≠ .outputCollision) :
    ((report p pool started finished).errors.filter fun e => e.error.kind == .outputCollision).Perm
      (p.errors.filter fun e => e.error.kind == .outputCollision) := by
  have hnone : (pool.tally.errors.filter fun e => e.error.kind == .outputCollision) = [] := by
    apply List.filter_eq_nil_iff.mpr
    intro e he
    simpa using h e he
  have hsorted := (List.mergeSort_perm (p.errors ++ pool.tally.errors)
    fun a b => a.compare b != .gt).filter fun e => e.error.kind == .outputCollision
  rw [List.filter_append, hnone, List.append_nil] at hsorted
  exact hsorted

/-- Work on a plan that was made for a valid configuration never collides, in whatever order how
many workers take their steps, and whatever has become of the files in the meantime: each unit
finds its target, no claim is refused, the work is not halted, and the only collisions in the
report are those that were found by planning. -/
theorem plan_never_collides [Schema.Compiler] (hvalid : project.config.fault? = none)
    (htree : tree.WellFormed)
    (h : Pool.Run project.config (project.plan tree).units
      (Pool.start workers (project.plan tree) tree') schedule log pool) :
    (∀ u ∈ (project.plan tree).units, ∃ t, project.config.targets[u.targetIndex]? = some t ∧
      ∀ shown, project.config.targetOf u shown = .ok t) ∧
    (∀ i, Event.refused i ∉ log) ∧
    (∀ e ∈ pool.tally.errors, e.error.kind ≠ .outputCollision) ∧
    (report (project.plan tree) pool started finished).halted = false ∧
    ((report (project.plan tree) pool started finished).errors.filter
        fun e => e.error.kind == .outputCollision).Perm
      ((project.plan tree).errors.filter fun e => e.error.kind == .outputCollision) := by
  have hplan := project.isPlan_plan htree
  have hapart := hplan.hasApartOutputs hvalid
  refine ⟨fun u hu => ?_, h.refused_notMem hapart, h.kind_ne hapart, h.isHalted_eq_false hapart,
    perm_collisions_report (h.kind_ne hapart)⟩
  obtain ⟨t, _, hplanned⟩ := hplan.planned u hu
  exact ⟨t, hplanned.target?, BuildConfig.targetOf_eq hplanned.target? hplanned.target⟩

/-- Two workers copy one file to the same path of two targets. -/
theorem twoWorkers_never_collides : ∃ schedule log pool,
    Pool.Run twoWorkers.config (twoWorkers.plan oneFileTree).units
      (Pool.start 2 (twoWorkers.plan oneFileTree) oneFileTree) schedule log pool ∧
    pool.IsStuck twoWorkers.config (twoWorkers.plan oneFileTree).units ∧
    (twoWorkers.plan oneFileTree).units.map PlannedUnit.outputPath = [⟨"a.js"⟩, ⟨"a.js"⟩] ∧
    (∀ u ∈ (twoWorkers.plan oneFileTree).units,
      ∃ t, twoWorkers.config.targets[u.targetIndex]? = some t ∧
        ∀ shown, twoWorkers.config.targetOf u shown = .ok t) ∧
    (∀ i, Event.refused i ∉ log) ∧
    (∀ e ∈ pool.tally.errors, e.error.kind ≠ .outputCollision) ∧
    (report (twoWorkers.plan oneFileTree) pool ⟨0⟩ ⟨0⟩).halted = false ∧
    ((report (twoWorkers.plan oneFileTree) pool ⟨0⟩ ⟨0⟩).errors.filter
        fun e => e.error.kind == .outputCollision).Perm
      ((twoWorkers.plan oneFileTree).errors.filter
        fun e => e.error.kind == .outputCollision) := by
  obtain ⟨log, ⟨schedule, hrun⟩, hstuck⟩ :=
    exists_endsIn_run twoWorkers (twoWorkers.plan oneFileTree) oneFileTree
  exact ⟨schedule, log, _, hrun, hstuck, by decide +kernel,
    plan_never_collides (by decide +kernel) (by decide +kernel) hrun⟩

end Project

end Filewise
