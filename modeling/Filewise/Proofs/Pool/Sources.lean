import Filewise.Proofs.Pool.Schedule
import Mathlib.Data.List.Perm.Subperm

/-!
# Sources are read once

The files of a build are looked at only when a worker asks for the content of a source that
is not known. Units keep a source as long as they have not been released, and the last of them
to be released drops it. As a unit asks only before it is released, nobody asks for a source
that was dropped.

## Main definitions

* `Pool.trace`: what is noted of each step of a schedule.
* `Pool.loads?`, `Pool.releases?`: the source that a step reads from the tree, and the unit
  that it releases.
* `Source.Minded`: what is known of a source, by how often it was read and how many of its
  units were released.
* `Plan.IsFresh`: nobody has read a source, and its users are its units.

## Main results

* `Pool.Run.minded`: what is known of sources is known in every run.
* `Pool.Run.sources_read_once`: each source is read at most once, and not kept for longer than
  there are units that need it.
-/

namespace Filewise

/-! ### Reading from the tree -/

/-- Whether the content of a source has to be read when it is asked for. -/
def Source.needsLoading (x : Source) : Bool :=
  match x.content with
  | .unread | .released => true
  | .loaded _ | .failed _ => false

/-- Only a source that has to be read depends on the tree. -/
theorem Source.refreshed_eq (x : Source) (tree : Tree) :
    x.refreshed tree = if x.needsLoading then x.load tree else x.content := by
  unfold refreshed needsLoading
  cases x.content <;> rfl

/-- The source that is read from the tree when a unit is converted. -/
def Shared.loads? (s : Shared) (c : BuildConfig) (u : PlannedUnit) : Option Nat :=
  match c.targetOf u (s.source u).relative with
  | .error _ => none
  | .ok _ => if (s.source u).needsLoading then some u.source else none

/-! ### Steps of a worker -/

namespace Phase

/-- The source that a worker is about to read from the tree. -/
def loads? (c : BuildConfig) (units : List PlannedUnit) (s : Shared) : Phase → Option Nat
  | .converting i => do s.loads? c (← units[i]?)
  | _ => none

/-- The unit that a worker is about to release. -/
def releases? : Phase → Option Nat
  | .releasing i _ => some i
  | _ => none

/-- The unit that a worker has released and not yet taken down. -/
def released? : Phase → Option Nat
  | .dropping i _ | .recording i _ => some i
  | _ => none

/-- The worker is about to drop the source, having released the last of its units. -/
def Drops (units : List PlannedUnit) (k : Nat) : Phase → Prop
  | .dropping i _ => ∃ u, units[i]? = some u ∧ u.source = k
  | _ => False

theorem unit?_of_released? {phase : Phase} {i : Nat} (h : phase.released? = some i) :
    phase.unit? = some i := by
  cases phase with
  | dropping | recording => exact h
  | _ => simp [released?] at h

end Phase

/-- What a step of a worker does to sources: nothing, or it asks for the content of one, or it
releases a unit of one, or it drops one. -/
inductive Worker.SourceStep (c : BuildConfig) (units : List PlannedUnit) (s : Shared) :
    Phase → List Source → Phase → Prop
  | keep {phase phase' : Phase} : phase.loads? c units s = none → phase.releases? = none →
      (∀ k, ¬phase.Drops units k) → (∀ k, ¬phase'.Drops units k) →
      SourceStep c units s phase s.sources phase'
  | read {i u} {phase' : Phase} : units[i]? = some u →
      (Phase.converting i).loads? c units s =
        (if (s.source u).needsLoading then some u.source else none) →
      (∀ k, ¬phase'.Drops units k) →
      SourceStep c units s (.converting i)
        (s.sources.modify u.source fun x => (x.read s.tree).1) phase'
  | release {i u result} : units[i]? = some u →
      SourceStep c units s (.releasing i result) (s.sources.modify u.source Source.forget)
        (if (s.source u).users == 1 then .dropping i result else .recording i result)
  | drop {i u result} : units[i]? = some u →
      SourceStep c units s (.dropping i result) (s.sources.modify u.source Source.drop)
        (.recording i result)

namespace Worker.Step

variable {c : BuildConfig} {units : List PlannedUnit} {s s' : Shared} {y : Tally} {phase : Phase}
  {event : Option Event} {w' : Worker}

/-- A worker that converts a unit reads its source, if there is a target for it. -/
theorem sourceStep_convert {i : Nat} {u : PlannedUnit} {phase' : Phase}
    {answer : Except BuildError (Target × ByteArray)} (hu : units[i]? = some u)
    (h : s.convert c u = (s', answer)) (hphase' : ∀ k, ¬phase'.Drops units k) :
    SourceStep c units s (.converting i) s'.sources phase' := by
  unfold Shared.convert at h
  cases htarget : c.targetOf u (s.source u).relative with
  | error e =>
    rw [htarget] at h
    obtain ⟨rfl, -⟩ := Prod.mk.inj h
    refine .keep ?_ rfl (fun _ => id) hphase'
    simp [Phase.loads?, hu, Shared.loads?, htarget]
  | ok t =>
    rw [htarget] at h
    have hsources : s'.sources = (s.read u).1.sources := by
      dsimp only at h
      split at h <;> rename_i hread <;> obtain ⟨rfl, -⟩ := Prod.mk.inj h <;> rw [hread]
    rw [hsources, Shared.read_sources]
    refine .read hu ?_ hphase'
    simp [Phase.loads?, hu, Shared.loads?, htarget]

/-- Every step does to sources what the rules say. -/
theorem sourceStep (h : Step c units s y phase event s' w') :
    SourceStep c units s phase s'.sources w'.phase := by
  have hkeep : ∀ {phase phase' : Phase}, s'.sources = s.sources →
      phase.loads? c units s = none → phase.releases? = none → (∀ k, ¬phase.Drops units k) →
      (∀ k, ¬phase'.Drops units k) → SourceStep c units s phase s'.sources phase' := by
    intro phase phase' hsources hloads hreleases hdrops hdrops'
    rw [hsources]
    exact .keep hloads hreleases hdrops hdrops'
  cases h with
  | halt | look | take | nothingLeft | claimFails =>
    exact .keep rfl rfl (fun _ => id) fun _ => id
  | convert hu hconvert => exact sourceStep_convert hu hconvert fun _ => id
  | convertFails hu hconvert => exact sourceStep_convert hu hconvert fun _ => id
  | claim _ h =>
    exact hkeep (by rw [Shared.claim_frame h]) rfl rfl (fun _ => id) fun _ => id
  | makeDirectory _ h | makeDirectoryFails _ h =>
    exact hkeep (by rw [Shared.makeDirectory_frame h]) rfl rfl (fun _ => id) fun _ => id
  | place _ h | placeFails _ h =>
    exact hkeep (by rw [Shared.place_frame h]) rfl rfl (fun _ => id) fun _ => id
  | release hu h =>
    obtain ⟨rfl, rfl⟩ := Prod.mk.inj h
    exact .release hu
  | drop hu => exact .drop hu
  | record _ =>
    exact hkeep (by rw [Shared.haltAfter_frame s]) rfl rfl (fun _ => id) fun _ => id

/-- A unit that is released is at its worker as a released one until it is taken down. -/
theorem released_flow (h : Step c units s y phase event s' w') :
    ((event.bind Event.recorded?).map Prod.fst).toList ++ w'.phase.released?.toList =
      phase.released?.toList ++ phase.releases?.toList := by
  cases h with
  | release _ _ => split_ifs <;> rfl
  | _ => rfl

end Worker.Step

/-! ### One source -/

/-- What is known of a source that was read so many times, of whose units so many were released
and that is now about to be dropped or not. -/
structure Source.Minded (reads released all : Nat) (isDropped : Prop) (x : Source) : Prop where
  users : x.users + released = all
  unread : x.content = .unread → reads = 0
  once : reads ≤ 1
  gone : x.content = .released → x.users = 0
  last : isDropped → x.users = 0
  kept : x.isLoaded = true → x.users = 0 → isDropped

namespace Source.Minded

variable {reads released all : Nat} {isDropped isDropped' : Prop} {x : Source}

/-- A source that somebody needs has not been dropped, so that it is read for the first time if
it is read. -/
theorem read (h : x.Minded reads released all isDropped) (tree : Tree) (husers : 0 < x.users) :
    (x.read tree).1.Minded (reads + if x.needsLoading then 1 else 0) released all isDropped := by
  have hread : (x.read tree).1.content = if x.needsLoading then x.load tree else x.content := by
    rw [Source.read, Source.refreshed_eq]
  cases hneeds : x.needsLoading with
  | false =>
    have hsame : (x.read tree).1 = x := by simp [Source.read, Source.refreshed_eq, hneeds]
    rw [hsame]
    exact h
  | true =>
    rw [hneeds, if_pos rfl] at hread
    have hunread : x.content = .unread := by
      cases hcontent : x.content with
      | unread => rfl
      | released => exact absurd (h.gone hcontent) husers.ne'
      | loaded _ | failed _ => simp [needsLoading, hcontent] at hneeds
    have hknown : x.load tree ≠ .unread ∧ x.load tree ≠ .released := by
      unfold load
      cases tree.read x.absolute <;> simp
    refine ⟨h.users, fun hnow => ?_, ?_, fun hnow => ?_, h.last,
      fun _ hzero => absurd hzero husers.ne'⟩
    · exact absurd (hread.symm.trans hnow) hknown.1
    · rw [h.unread hunread, if_pos rfl]
    · exact absurd (hread.symm.trans hnow) hknown.2

/-- The last unit to be released sees to it that the source is dropped. -/
theorem forget (h : x.Minded reads released all isDropped) (husers : 0 < x.users)
    (hdropped : isDropped' ↔ isDropped ∨ x.users = 1) :
    x.forget.Minded reads (released + 1) all isDropped' := by
  have hforget : x.forget.users = x.users - 1 := rfl
  refine ⟨?_, h.unread, h.once, fun hgone => ?_, fun hnow => ?_, fun _ hzero => ?_⟩
  · have := h.users
    omega
  · exact absurd (h.gone hgone) husers.ne'
  · rcases hdropped.mp hnow with hbefore | hone
    · exact absurd (h.last hbefore) husers.ne'
    · omega
  · exact hdropped.mpr (Or.inr (by omega))

/-- A source is dropped when nobody needs it. -/
theorem drop (h : x.Minded reads released all isDropped) (hdropped : isDropped) :
    x.drop.Minded reads released all isDropped' := by
  have hzero := h.last hdropped
  unfold Source.drop
  split_ifs with hloaded
  · exact ⟨h.users, by simp, h.once, fun _ => hzero, fun _ => hzero, by simp [isLoaded]⟩
  · exact ⟨h.users, h.unread, h.once, h.gone, fun _ => hzero, fun hnow _ => absurd hnow hloaded⟩

theorem congr (h : x.Minded reads released all isDropped) (hdropped : isDropped' ↔ isDropped) :
    x.Minded reads released all isDropped' := by
  rwa [propext hdropped]

end Source.Minded

/-- Whether a unit has the source. -/
def usesSource (units : List PlannedUnit) (k i : Nat) : Bool := (units[i]?).any (·.source == k)

theorem usesSource_eq {units : List PlannedUnit} {i : Nat} {u : PlannedUnit}
    (hu : units[i]? = some u) (k : Nat) : usesSource units k i = (u.source == k) := by
  rw [usesSource, hu, Option.any_some]

section Steps

variable {c : BuildConfig} {units : List PlannedUnit} {s : Shared} {reads released all i k : Nat}
  {u : PlannedUnit} {others : Prop} {x : Source} {result : UnitResult}

/-- A worker that asks for the content of a source keeps what is known of it. -/
theorem Source.Minded.modify_read
    (hpos : ∀ x, s.sources[u.source]? = some x → 0 < x.users)
    (hminded : ∀ x, s.sources[k]? = some x → x.Minded reads released all others)
    (hx : (s.sources.modify u.source fun x => (x.read s.tree).1)[k]? = some x) :
    x.Minded (reads + (if (s.source u).needsLoading then some u.source else none).toList.count k)
      released all others := by
  rw [List.getElem?_modify] at hx
  obtain ⟨y, hy, rfl⟩ := Option.map_eq_some_iff.mp hx
  by_cases hk : u.source = k
  · subst hk
    have hread := (hminded y hy).read s.tree (hpos y hy)
    rw [if_pos rfl, Shared.source, hy, Option.getD_some]
    cases hneeds : y.needsLoading <;> rw [hneeds] at hread <;> simpa using hread
  · rw [if_neg hk]
    split_ifs <;> simpa [hk] using hminded y hy

/-- A worker that releases a unit goes on to drop its source if it was the last to need it. -/
theorem Source.Minded.modify_forget (hu : units[i]? = some u)
    (hpos : ∀ x, s.sources[u.source]? = some x → 0 < x.users)
    (hminded : ∀ x, s.sources[k]? = some x → x.Minded reads released all (False ∨ others))
    (hx : (s.sources.modify u.source Source.forget)[k]? = some x) :
    x.Minded reads (released + if u.source = k then 1 else 0) all
      ((if (s.source u).users == 1 then Phase.dropping i result
        else .recording i result).Drops units k ∨ others) := by
  rw [List.getElem?_modify] at hx
  obtain ⟨y, hy, rfl⟩ := Option.map_eq_some_iff.mp hx
  by_cases hk : u.source = k
  · subst hk
    rw [if_pos rfl, if_pos rfl, Shared.source, hy, Option.getD_some]
    refine (hminded y hy).forget (hpos y hy) ?_
    by_cases hlast : y.users = 1
    · simp [hlast, Phase.Drops, hu]
    · simp [hlast, Phase.Drops]
  · rw [if_neg hk, if_neg hk]
    refine (hminded y hy).congr (or_congr_left ?_)
    split_ifs <;> simp [Phase.Drops, hu, hk]

/-- A worker that drops a source has nothing to drop any more. -/
theorem Source.Minded.modify_drop (hu : units[i]? = some u)
    (hminded : ∀ x, s.sources[k]? = some x →
      x.Minded reads released all ((Phase.dropping i result).Drops units k ∨ others))
    (hx : (s.sources.modify u.source Source.drop)[k]? = some x) :
    x.Minded reads released all (False ∨ others) := by
  rw [List.getElem?_modify] at hx
  obtain ⟨y, hy, rfl⟩ := Option.map_eq_some_iff.mp hx
  by_cases hk : u.source = k
  · rw [if_pos hk]
    exact (hminded y hy).drop (Or.inl ⟨u, hu, hk⟩)
  · rw [if_neg hk]
    refine (hminded y hy).congr (or_congr_left (iff_of_false id ?_))
    rintro ⟨v, hv, rfl⟩
    exact hk (congrArg _ (Option.some_inj.mp (hu.symm.trans hv)))

/-- What a step does keeps what is known of a source, if somebody needs the source of a unit that
its worker is at and has not released. The other workers may be about to drop it. -/
theorem Worker.SourceStep.minded {phase phase' : Phase} {sources : List Source}
    (h : SourceStep c units s phase sources phase')
    (hpos : ∀ i u x, phase.unit? = some i → phase.released? = none → units[i]? = some u →
      s.sources[u.source]? = some x → 0 < x.users)
    (hminded : ∀ x, s.sources[k]? = some x →
      x.Minded reads released all (phase.Drops units k ∨ others))
    (hx : sources[k]? = some x) :
    x.Minded (reads + (phase.loads? c units s).toList.count k)
      (released + phase.releases?.toList.countP (usesSource units k)) all
      (phase'.Drops units k ∨ others) := by
  cases h with
  | keep hloads hreleases hdrops hdrops' =>
    rw [hloads, hreleases]
    refine (hminded x hx).congr ?_
    rw [iff_false_intro (hdrops k), iff_false_intro (hdrops' k)]
  | @read i u _ hu hloads hdrops' =>
    rw [hloads]
    exact .modify_read (hpos i u · rfl rfl hu)
      (fun y hy => (hminded y hy).congr (or_congr_left (iff_false_intro (hdrops' k)))) hx
  | @release i u result hu =>
    have hcount : (Phase.releasing i result).releases?.toList.countP (usesSource units k) =
        if u.source = k then 1 else 0 := by
      simp [Phase.releases?, List.countP_singleton, usesSource_eq hu]
    rw [hcount]
    exact .modify_forget hu (hpos i u · rfl rfl hu) hminded hx
  | drop hu => exact .modify_drop hu hminded hx

end Steps

/-! ### Schedules -/

/-- Nobody has read the sources of the plan, and the users of each are its units. -/
def Plan.IsFresh (p : Plan) : Prop :=
  ∀ (k : Nat) (x : Source), p.sources[k]? = some x →
    x.content = .unread ∧ x.users = p.units.countP (·.source == k)

namespace Pool

variable {c : BuildConfig} {units : List PlannedUnit} {first pool next : Pool}
  {worker workers : Nat} {schedule : List Nat} {log : List Event} {p : Plan} {tree : Tree}

/-- What is noted of the steps that the workers of a schedule take one after the other. -/
def trace {α : Type} (c : BuildConfig) (units : List PlannedUnit) (note? : Pool → Nat → Option α) :
    Pool → List Nat → List α
  | _, [] => []
  | pool, worker :: schedule =>
    match pool.step? c units worker with
    | none => trace c units note? pool schedule
    | some next => (note? pool worker).toList ++ trace c units note? next schedule

/-- What is noted of a run and what follows it. -/
theorem Run.trace_append {α : Type} (note? : Pool → Nat → Option α)
    (h : Run c units first schedule log pool) (more : List Nat) :
    trace c units note? first (schedule ++ more) =
      trace c units note? first schedule ++ trace c units note? pool more := by
  induction h generalizing more with
  | start => rfl
  | @step schedule log pool worker next _ hstep ih =>
    have hmore : trace c units note? pool (worker :: more) =
        (note? pool worker).toList ++ trace c units note? next more := by
      rw [trace, hstep]
    have hone : trace c units note? pool [worker] = (note? pool worker).toList := by
      rw [trace, hstep]
      exact List.append_nil _
    rw [List.append_assoc, List.singleton_append, ih, ih, hmore, hone, List.append_assoc]

/-- One more step is noted at the end. -/
theorem Run.trace_step {α : Type} (note? : Pool → Nat → Option α)
    (h : Run c units first schedule log pool) (hstep : pool.step? c units worker = some next) :
    trace c units note? first (schedule ++ [worker]) =
      trace c units note? first schedule ++ (note? pool worker).toList := by
  rw [h.trace_append, trace, hstep]
  exact congrArg _ (List.append_nil _)

/-- The source that the next step of a worker reads from the tree. -/
def loads? (c : BuildConfig) (units : List PlannedUnit) (pool : Pool) (worker : Nat) :
    Option Nat := do
  (← pool.workers[worker]?).phase.loads? c units pool.shared

/-- The unit that the next step of a worker releases. -/
def releases? (pool : Pool) (worker : Nat) : Option Nat := do
  (← pool.workers[worker]?).phase.releases?

/-- Some worker is about to drop the source, having released the last of its units. -/
def IsDropping (units : List PlannedUnit) (pool : Pool) (k : Nat) : Prop :=
  ∃ w ∈ pool.workers, w.phase.Drops units k

/-- Sources are known by what was read and released, and what was released is taken down or at
workers. -/
structure Minded (units : List PlannedUnit) (loads releases : List Nat) (log : List Event)
    (pool : Pool) : Prop where
  released : ((records log).map Prod.fst ++
    pool.workers.flatMap fun w => w.phase.released?.toList).Perm releases
  sources : ∀ (k : Nat) (x : Source), pool.shared.sources[k]? = some x →
    x.Minded (loads.count k) (releases.countP (usesSource units k))
      (units.countP (·.source == k)) (pool.IsDropping units k)

/-! ### Counting units -/

theorem countP_range_usesSource (units : List PlannedUnit) (k : Nat) :
    (List.range units.length).countP (usesSource units k) = units.countP (·.source == k) := by
  have hunits : (List.range units.length).map (fun i => units[i]?) = units.map some := by
    apply List.ext_getElem?
    intro i
    by_cases hi : i < units.length <;> simp [hi]
  have hcount := congrArg (List.countP (Option.any fun u : PlannedUnit => u.source == k)) hunits
  rw [List.countP_map, List.countP_map] at hcount
  exact hcount

/-- Who has released a unit is at it. -/
theorem released_sublist (workers : List Worker) :
    (workers.flatMap fun w => w.phase.released?.toList).Sublist
      (workers.flatMap fun w => w.phase.unit?.toList) := by
  induction workers with
  | nil => exact List.Sublist.refl _
  | cons w workers ih =>
    rw [List.flatMap_cons, List.flatMap_cons]
    refine List.Sublist.append ?_ ih
    cases hw : w.phase.released? with
    | none => exact List.nil_sublist _
    | some i => rw [Phase.unit?_of_released? hw]

/-- The units that were taken exist, and none comes twice. -/
theorem Accounted.subperm (h : Accounted units first log pool) :
    ((records log).map Prod.fst ++ pool.atWork).Subperm (List.range units.length) := by
  have hrange : (List.range (min pool.shared.taken units.length)).Sublist
      (List.range units.length) := List.range_sublist.mpr (Nat.min_le_right _ _)
  exact h.held.subperm.trans hrange.subperm

/-- The units that were released exist, and none comes twice. -/
theorem Minded.subperm {loads releases : List Nat} (h : Minded units loads releases log pool)
    (hbooks : Accounted units first log pool) : releases.Subperm (List.range units.length) :=
  h.released.symm.subperm.trans
    (((released_sublist pool.workers).append_left _).subperm.trans hbooks.subperm)

/-- A unit that a worker is at and has not released is none of those that were. -/
theorem Minded.subperm_append {loads releases : List Nat} {w : Worker} {i : Nat}
    (h : Minded units loads releases log pool) (hbooks : Accounted units first log pool)
    (hw : pool.workers[worker]? = some w) (hunit : w.phase.unit? = some i)
    (hkept : w.phase.released? = none) : (releases ++ [i]).Subperm (List.range units.length) := by
  obtain ⟨others, hperm, -⟩ := perm_of_set hw w
  have hreleased := hperm.flatMap_right fun w => w.phase.released?.toList
  have hwork := hperm.flatMap_right fun w => w.phase.unit?.toList
  rw [List.flatMap_cons, hkept, Option.toList_none, List.nil_append] at hreleased
  rw [List.flatMap_cons, hunit, Option.toList_some, List.singleton_append] at hwork
  -- what is released is what is taken down and what the others have released
  have hleft : (releases ++ [i]).Perm ((records log).map Prod.fst ++
      (i :: others.flatMap fun w => w.phase.released?.toList)) := by
    refine ((h.released.symm.trans (hreleased.append_left _)).append_right [i]).trans ?_
    rw [List.append_assoc]
    exact List.Perm.append_left _ List.perm_append_comm
  have hright := (hwork.append_left ((records log).map Prod.fst)).symm.subperm
  exact hleft.subperm.trans
    ((((released_sublist others).cons_cons i).append_left _).subperm.trans
      (hright.trans hbooks.subperm))

/-- A source of a unit that a worker is at and has not released is needed. -/
theorem Minded.users_pos {loads releases : List Nat} {w : Worker} {i : Nat} {u : PlannedUnit}
    {x : Source} (h : Minded units loads releases log pool)
    (hbooks : Accounted units first log pool) (hw : pool.workers[worker]? = some w)
    (hunit : w.phase.unit? = some i) (hkept : w.phase.released? = none) (hu : units[i]? = some u)
    (hx : pool.shared.sources[u.source]? = some x) : 0 < x.users := by
  have huses : usesSource units u.source i = true := by simp [usesSource, hu]
  have hcount := (h.subperm_append hbooks hw hunit hkept).countP_le (usesSource units u.source)
  rw [countP_range_usesSource, List.countP_append, List.countP_singleton, huses, if_pos rfl]
    at hcount
  have husers := (h.sources _ x hx).users
  omega

/-! ### Steps -/

/-- Whether a source is about to be dropped is up to the others and the worker that steps. -/
theorem isDropping_iff {w : Worker} {others : List Worker} {k : Nat}
    (h : pool.workers.Perm (w :: others)) :
    pool.IsDropping units k ↔ w.phase.Drops units k ∨ ∃ v ∈ others, v.phase.Drops units k := by
  unfold IsDropping
  simp only [h.mem_iff, List.mem_cons, exists_eq_or_imp]

/-- A step keeps what is known of sources. -/
theorem Minded.step {loads releases : List Nat} (h : Minded units loads releases log pool)
    (hbooks : Accounted units first log pool) (hstep : pool.step? c units worker = some next) :
    Minded units (loads ++ (pool.loads? c units worker).toList)
      (releases ++ (pool.releases? worker).toList)
      (log ++ (pool.event? units worker).toList) next := by
  obtain ⟨w, w', hw, hworkers, hstep⟩ := exists_of_step? hstep
  obtain ⟨others, hperm, hperm'⟩ := perm_of_set hw w'
  rw [← hworkers] at hperm'
  have hloads : pool.loads? c units worker = w.phase.loads? c units pool.shared := by
    simp [Pool.loads?, hw]
  have hreleases : pool.releases? worker = w.phase.releases? := by
    simp [Pool.releases?, hw]
  rw [hloads, hreleases]
  have hflow := hstep.released_flow
  rw [Option.toList_map] at hflow
  refine ⟨?_, ?_⟩
  · rw [records_append, List.map_append]
    exact perm_of_flow hperm hperm' h.released hflow
  · intro k x hx
    rw [List.count_append, List.countP_append]
    refine (hstep.sourceStep.minded (fun i u x => h.users_pos hbooks hw) (fun x hx => ?_)
      hx).congr (isDropping_iff hperm')
    exact (h.sources k x hx).congr (isDropping_iff hperm).symm

/-! ### Runs -/

/-- The sources that are read from the tree when the workers of a schedule step one after the
other. -/
def loads (c : BuildConfig) (units : List PlannedUnit) (first : Pool) (schedule : List Nat) :
    List Nat :=
  trace c units (Pool.loads? c units) first schedule

/-- The units that are released when the workers of a schedule step one after the other. -/
def releases (c : BuildConfig) (units : List PlannedUnit) (first : Pool) (schedule : List Nat) :
    List Nat :=
  trace c units Pool.releases? first schedule

/-- What is known of sources is known in every run on a plan that nobody has worked on. -/
theorem Run.minded (h : Run c p.units (Pool.start workers p tree) schedule log pool)
    (hfresh : p.IsFresh) :
    Minded p.units ((Pool.start workers p tree).loads c p.units schedule)
      ((Pool.start workers p tree).releases c p.units schedule) log pool := by
  induction h with
  | start =>
    have hlooking : ∀ w ∈ (Pool.start workers p tree).workers, w.phase = .looking :=
      fun w hw => by rw [List.eq_of_mem_replicate hw]
    have hreleased : ((Pool.start workers p tree).workers.flatMap
        fun w => w.phase.released?.toList) = [] :=
      List.flatMap_eq_nil_iff.mpr fun w hw => by rw [hlooking w hw]; rfl
    refine ⟨by rw [hreleased]; exact List.Perm.refl [], fun k x hx => ?_⟩
    obtain ⟨hunread, husers⟩ := hfresh k x hx
    refine ⟨husers, fun _ => rfl, Nat.zero_le 1, by simp [hunread], ?_,
      by simp [Source.isLoaded, hunread]⟩
    rintro ⟨w, hw, hdrops⟩
    rw [hlooking w hw] at hdrops
    exact hdrops.elim
  | step hrun hstep ih =>
    rw [loads, releases, hrun.trace_step _ hstep, hrun.trace_step _ hstep]
    exact ih.step hrun.accounted hstep

/-- Without workers nothing happens. -/
theorem Run.eq_of_workers_eq_nil (h : Run c units first schedule log pool)
    (hnone : pool.workers = []) : pool = first := by
  cases h with
  | start => rfl
  | step _ hstep =>
    obtain ⟨w, w', hw, hworkers, -⟩ := exists_of_step? hstep
    rw [hworkers, List.set_eq_nil_iff] at hnone
    simp [hnone] at hw

/-- As many need a source as there are units of it that were not released. -/
theorem Minded.users_eq {loads releases : List Nat} {k : Nat} {x : Source}
    (h : Minded units loads releases log pool) (hbooks : Accounted units first log pool)
    (hx : pool.shared.sources[k]? = some x) :
    x.users = ((List.range units.length).filter fun i => !releases.contains i).countP
      (usesSource units k) := by
  have hsubperm := h.subperm hbooks
  have hnodup : releases.Nodup := by
    obtain ⟨l, hl, hsublist⟩ := hsubperm
    exact hl.nodup_iff.mp (hsublist.nodup List.nodup_range)
  have hperm : ((List.range units.length).filter releases.contains).Perm releases := by
    refine (List.perm_ext_iff_of_nodup (List.nodup_range.filter _) hnodup).mpr fun i => ?_
    rw [List.mem_filter, List.contains_iff_mem, and_iff_right_iff_imp]
    exact fun hi => hsubperm.subset hi
  have hsplit := List.countP_eq_countP_filter_add (List.range units.length) (usesSource units k)
    releases.contains
  have husers := (h.sources k x hx).users
  rw [countP_range_usesSource, hperm.countP_eq] at hsplit
  omega

/-- What is true of sources when the workers of a schedule have stepped one after the other. -/
structure ReadsOnce (c : BuildConfig) (p : Plan) (first : Pool) (schedule : List Nat)
    (pool : Pool) : Prop where
  /-- Each source is read from the tree at most once. -/
  once : ∀ k < p.sources.length, (first.loads c p.units schedule).count k ≤ 1
  /-- If no file comes twice among the sources, no file is read twice. -/
  files : Source.Distinct p.sources →
    ((first.loads c p.units schedule).filterMap fun k =>
      (p.sources[k]?).map Source.absolute).Pairwise fun a b => a.same b = false
  /-- As many need a source as there are units of it that were not released. -/
  users : ∀ (k : Nat) (x : Source), pool.shared.sources[k]? = some x → x.users =
    ((List.range p.units.length).filter fun i =>
      !(first.releases c p.units schedule).contains i).countP (usesSource p.units k)
  /-- A source that nobody needs is not loaded, unless the worker that was the last to release
  it is about to drop it. -/
  dropped : ∀ (k : Nat) (x : Source), pool.shared.sources[k]? = some x → x.users = 0 →
    ¬pool.IsDropping p.units k → x.isLoaded = false
  /-- When nobody can take another step and the work was not halted, no source is loaded. -/
  released : pool.IsStuck c p.units → pool.shared.isHalted = false →
    ∀ x ∈ pool.shared.sources, x.isLoaded = false

/-- When everything is taken down, no source is loaded. -/
theorem Run.isLoaded_eq_false (h : Run c p.units (Pool.start workers p tree) schedule log pool)
    (hfresh : p.IsFresh) (hstuck : pool.IsStuck c p.units)
    (hhalted : pool.shared.isHalted = false) :
    ∀ x ∈ pool.shared.sources, x.isLoaded = false := by
  intro x hx
  obtain ⟨k, hk⟩ := List.mem_iff_getElem?.mp hx
  by_cases hworkers : pool.workers = []
  · -- nobody was there to read anything
    rw [h.eq_of_workers_eq_nil hworkers] at hk
    simp [Source.isLoaded, (hfresh k x hk).1]
  · have hfinished := isFinished_of_isStuck (h.unitsExist (unitsExist_start workers p tree)) hstuck
    have hminded := h.minded hfresh
    have hrecords := h.accounted.perm_records hfinished hhalted fun _ => hworkers
    have hnone : (pool.workers.flatMap fun w => w.phase.released?.toList) = [] :=
      List.flatMap_eq_nil_iff.mpr fun w hw => by rw [hfinished w hw]; rfl
    have hreleased := hminded.released
    rw [hnone, List.append_nil] at hreleased
    have hsource := hminded.sources k x hk
    have husers := hsource.users
    -- all units of the source were released
    rw [← (hrecords.symm.trans hreleased).countP_eq, countP_range_usesSource] at husers
    by_contra hloaded
    obtain ⟨w, hw, hdrops⟩ := hsource.kept (by simpa using hloaded) (by omega)
    rw [hfinished w hw] at hdrops
    exact hdrops

/-- In every run on a plan whose sources are unread and are counted as used by their units, each
source is read from the tree at most once, however many units and targets share it. It is needed
by the units that were not released, and it is dropped with the last of them; if the work is not
halted, nothing is loaded at its end. -/
theorem Run.sources_read_once (h : Run c p.units (Pool.start workers p tree) schedule log pool)
    (hfresh : p.IsFresh) : ReadsOnce c p (Pool.start workers p tree) schedule pool := by
  have hbooks := h.accounted
  have hminded := h.minded hfresh
  have honce : ∀ k < p.sources.length,
      ((Pool.start workers p tree).loads c p.units schedule).count k ≤ 1 := by
    intro k hk
    have hlength : pool.shared.sources.length = p.sources.length := by
      have hfiles := congrArg List.length hbooks.files
      rwa [List.length_map, List.length_map] at hfiles
    exact (hminded.sources k _ (List.getElem?_eq_getElem (hlength ▸ hk))).once
  refine ⟨honce, fun hdistinct => ?_, fun k x hx => hminded.users_eq hbooks hx, ?_,
    h.isLoaded_eq_false hfresh⟩
  · have hnodup : (((Pool.start workers p tree).loads c p.units schedule).filter
        (· < p.sources.length)).Nodup := by
      apply List.nodup_iff_count_le_one.mpr
      intro k
      by_cases hk : k < p.sources.length
      · rw [List.count_filter (by simpa using hk)]
        exact honce k hk
      · rw [List.count_eq_zero.mpr fun hmem => hk (by simpa using (List.mem_filter.mp hmem).2)]
        exact Nat.zero_le 1
    refine List.pairwise_filterMap.mpr ((List.pairwise_filter.mp hnodup).imp ?_)
    intro k l hne a ha b hb
    obtain ⟨x, hx, rfl⟩ := Option.map_eq_some_iff.mp ha
    obtain ⟨y, hy, rfl⟩ := Option.map_eq_some_iff.mp hb
    rw [← Bool.not_eq_true]
    intro hsame
    refine hne ?_ ?_ (hdistinct.eq_of_same hx hy hsame)
    · simpa using (List.getElem?_eq_some_iff.mp hx).1
    · simpa using (List.getElem?_eq_some_iff.mp hy).1
  · intro k x hx hzero hdropping
    rw [← Bool.not_eq_true]
    exact fun hloaded => hdropping ((hminded.sources k x hx).kept hloaded hzero)

end Pool

/-! ### The work on a plan -/

namespace Project

variable {project : Project} {tree : Tree}

/-- Nobody has worked on a plan that has just been made. -/
theorem isFresh_plan [Schema.Compiler] (htree : tree.WellFormed) : (project.plan tree).IsFresh := by
  have hplan := project.isPlan_plan htree
  exact fun k x hx => ⟨(hplan.fresh x (List.mem_of_getElem? hx)).1, hplan.users k x hx⟩

/-- Two workers share the one file that two targets copy. -/
theorem twoWorkers_read_once : ∃ schedule log pool,
    Pool.Run twoWorkers.config (twoWorkers.plan oneFileTree).units
      (Pool.start 2 (twoWorkers.plan oneFileTree) oneFileTree) schedule log pool ∧
    pool.IsStuck twoWorkers.config (twoWorkers.plan oneFileTree).units ∧
    (twoWorkers.plan oneFileTree).sources.map Source.users = [2] ∧
    Pool.ReadsOnce twoWorkers.config (twoWorkers.plan oneFileTree)
      (Pool.start 2 (twoWorkers.plan oneFileTree) oneFileTree) schedule pool := by
  obtain ⟨log, ⟨schedule, hrun⟩, hstuck⟩ :=
    exists_endsIn_run twoWorkers (twoWorkers.plan oneFileTree) oneFileTree
  exact ⟨schedule, log, _, hrun, hstuck, by decide +kernel,
    hrun.sources_read_once (isFresh_plan (by decide +kernel))⟩

end Project

end Filewise
