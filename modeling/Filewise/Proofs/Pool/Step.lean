import Filewise.Pool.Run
import Mathlib.Data.List.Basic
import Mathlib.Tactic.Common

/-!
# Steps of workers

What a step of a worker can do is said once, as a relation with one rule for each way
in which a phase can end. A worker that has not finished can take a step, as long as the
unit it is at exists. What an operation does not touch stays as it is, and source files
stay the files that they are.

## Main definitions

* `Event`: what happens to units.
* `Worker.Step`: the rules for steps of a worker.
* `Shared.SameFiles`: the same source files are known.

## Main results

* `Worker.step_of_step?`: a worker steps by the rules.
* `Worker.step?_isSome`: a worker that has not finished can take a step.
* `Worker.Step.rank_lt`: a step brings its worker closer to looking again, or takes a unit.
-/

namespace Filewise

/-! ### What happens to units -/

/-- What happens to a unit. -/
inductive Event where
  /-- A worker took the unit. -/
  | took (unit : Nat)
  /-- Its output path belongs to another source. -/
  | refused (unit : Nat)
  /-- Its output was put in place. -/
  | wrote (unit : Nat)
  /-- It was taken down how the unit went. -/
  | recorded (unit : Nat) (result : UnitResult)

namespace Event

/-- The unit that was taken. -/
def took? : Event → Option Nat
  | took i => some i
  | _ => none

/-- The unit that was written. -/
def wrote? : Event → Option Nat
  | wrote i => some i
  | _ => none

/-- How a unit went that was taken down. -/
def recorded? : Event → Option (Nat × UnitResult)
  | recorded i result => some (i, result)
  | _ => none

end Event

/-- The unit that a worker is at. -/
def Phase.unit? : Phase → Option Nat
  | .looking | .taking | .finished => none
  | .converting i | .claiming i _ _ | .makingDirectory i _ _ | .placing i _ _
  | .releasing i _ | .dropping i _ | .recording i _ => some i

/-- How many steps a worker takes at most before it looks again. -/
def Phase.rank : Phase → Nat
  | .finished => 0
  | .taking => 1
  | .looking => 2
  | .recording _ _ => 3
  | .dropping _ _ => 4
  | .releasing _ _ => 5
  | .placing _ _ _ => 6
  | .makingDirectory _ _ _ => 7
  | .claiming _ _ _ => 8
  | .converting _ => 9

/-- How the unit went that a worker is at, once this is known. -/
def Phase.result? : Phase → Option (Nat × UnitResult)
  | .releasing i result | .dropping i result | .recording i result => some (i, result)
  | _ => none

namespace Worker

/-- What happens to a unit in the next step of a worker. -/
def event? (units : List PlannedUnit) (s : Shared) (w : Worker) : Option Event :=
  match w.phase with
  | .taking => if s.taken < units.length then some (.took s.taken) else none
  | .claiming i t _ => do
    match s.claim t (← units[i]?) with
    | .ok _ => none
    | .error _ => some (.refused i)
  | .placing i t content => do
    match (s.place t (← units[i]?) content).2 with
    | .ok _ => some (.wrote i)
    | .error _ => none
  | .recording i result => some (.recorded i result)
  | _ => none

/-- The rules for steps of a worker. -/
inductive Step (c : BuildConfig) (units : List PlannedUnit) (s : Shared) (y : Tally) :
    Phase → Option Event → Shared → Worker → Prop
  | halt : s.isHalted = true → Step c units s y .looking none s ⟨.finished, y⟩
  | look : s.isHalted = false → Step c units s y .looking none s ⟨.taking, y⟩
  | take : s.taken < units.length → Step c units s y .taking (some (.took s.taken))
      { s with taken := s.taken + 1 } ⟨.converting s.taken, y⟩
  | nothingLeft : ¬s.taken < units.length → Step c units s y .taking none
      { s with taken := s.taken + 1 } ⟨.finished, y⟩
  | convert {i u s' t content} : units[i]? = some u → s.convert c u = (s', .ok (t, content)) →
      Step c units s y (.converting i) none s' ⟨.claiming i t content, y⟩
  | convertFails {i u s' e} : units[i]? = some u → s.convert c u = (s', .error e) →
      Step c units s y (.converting i) none s' ⟨.releasing i (.error e), y⟩
  | claim {i t content u s'} : units[i]? = some u → s.claim t u = .ok s' →
      Step c units s y (.claiming i t content) none s' ⟨.makingDirectory i t content, y⟩
  | claimFails {i t content u e} : units[i]? = some u → s.claim t u = .error e →
      Step c units s y (.claiming i t content) (some (.refused i)) s ⟨.releasing i (.error e), y⟩
  | makeDirectory {i t content u s'} : units[i]? = some u → s.makeDirectory t u = (s', .ok ()) →
      Step c units s y (.makingDirectory i t content) none s' ⟨.placing i t content, y⟩
  | makeDirectoryFails {i t content u s' e} : units[i]? = some u →
      s.makeDirectory t u = (s', .error e) →
      Step c units s y (.makingDirectory i t content) none s' ⟨.releasing i (.error e), y⟩
  | place {i t content u s'} : units[i]? = some u → s.place t u content = (s', .ok ()) →
      Step c units s y (.placing i t content) (some (.wrote i)) s' ⟨.releasing i (.ok ()), y⟩
  | placeFails {i t content u s' e} : units[i]? = some u →
      s.place t u content = (s', .error e) →
      Step c units s y (.placing i t content) none s' ⟨.releasing i (.error e), y⟩
  | release {i result u s' isLast} : units[i]? = some u → s.release u = (s', isLast) →
      Step c units s y (.releasing i result) none s'
        ⟨if isLast then .dropping i result else .recording i result, y⟩
  | drop {i result u} : units[i]? = some u →
      Step c units s y (.dropping i result) none (s.drop u) ⟨.recording i result, y⟩
  | record {i result u} : units[i]? = some u →
      Step c units s y (.recording i result) (some (.recorded i result)) (s.haltAfter result)
        ⟨.looking, y.add u (s.source u).relative result⟩

variable {c : BuildConfig} {units : List PlannedUnit} {s s' : Shared} {w w' : Worker}

/-- A worker that takes a step finds the unit that it is at. -/
theorem exists_unit_of_step? {i : ℕ} (h : w.step? c units s = some (s', w'))
    (hi : w.phase.unit? = some i) : ∃ u, units[i]? = some u := by
  cases hu : units[i]? with
  | some u => exact ⟨u, rfl⟩
  | none =>
    obtain ⟨phase, y⟩ := w
    cases phase <;> simp_all [Phase.unit?, step?]

section Phases

variable {y : Tally} {i : ℕ} {u : PlannedUnit} {t : Target} {content : ByteArray}

theorem step_of_looking (h : step? c units s ⟨.looking, y⟩ = some (s', w')) :
    Step c units s y .looking none s' w' := by
  simp only [step?, Option.some.injEq, Prod.mk.injEq] at h
  obtain ⟨rfl, rfl⟩ := h
  cases hhalted : s.isHalted with
  | true => exact .halt hhalted
  | false => exact .look hhalted

theorem step_of_taking (h : step? c units s ⟨.taking, y⟩ = some (s', w')) :
    Step c units s y .taking (event? units s ⟨.taking, y⟩) s' w' := by
  simp only [step?, Option.some.injEq, Prod.mk.injEq] at h
  obtain ⟨rfl, rfl⟩ := h
  by_cases htaken : s.taken < units.length
  · simp only [event?, if_pos htaken]
    exact .take htaken
  · simp only [event?, if_neg htaken]
    exact .nothingLeft htaken

theorem step_of_converting (hu : units[i]? = some u)
    (h : step? c units s ⟨.converting i, y⟩ = some (s', w')) :
    Step c units s y (.converting i) none s' w' := by
  simp only [step?, hu, bind, Option.bind] at h
  rcases hconvert : s.convert c u with ⟨s'', e | ⟨t, content⟩⟩ <;> rw [hconvert] at h <;>
    simp only [Option.some.injEq, Prod.mk.injEq] at h <;> obtain ⟨rfl, rfl⟩ := h
  · exact .convertFails hu hconvert
  · exact .convert hu hconvert

theorem step_of_claiming (hu : units[i]? = some u)
    (h : step? c units s ⟨.claiming i t content, y⟩ = some (s', w')) :
    Step c units s y (.claiming i t content) (event? units s ⟨.claiming i t content, y⟩) s' w' := by
  simp only [step?, hu, bind, Option.bind] at h
  cases hclaim : s.claim t u <;> rw [hclaim] at h <;>
    simp only [Option.some.injEq, Prod.mk.injEq] at h <;> obtain ⟨rfl, rfl⟩ := h <;>
    simp only [event?, hu, bind, Option.bind, hclaim]
  · exact .claimFails hu hclaim
  · exact .claim hu hclaim

theorem step_of_makingDirectory (hu : units[i]? = some u)
    (h : step? c units s ⟨.makingDirectory i t content, y⟩ = some (s', w')) :
    Step c units s y (.makingDirectory i t content) none s' w' := by
  simp only [step?, hu, bind, Option.bind] at h
  rcases hmake : s.makeDirectory t u with ⟨s'', e | _⟩ <;> rw [hmake] at h <;>
    simp only [Option.some.injEq, Prod.mk.injEq] at h <;> obtain ⟨rfl, rfl⟩ := h
  · exact .makeDirectoryFails hu hmake
  · exact .makeDirectory hu hmake

theorem step_of_placing (hu : units[i]? = some u)
    (h : step? c units s ⟨.placing i t content, y⟩ = some (s', w')) :
    Step c units s y (.placing i t content) (event? units s ⟨.placing i t content, y⟩) s' w' := by
  simp only [step?, hu, bind, Option.bind] at h
  rcases hplace : s.place t u content with ⟨s'', e | _⟩ <;> rw [hplace] at h <;>
    simp only [Option.some.injEq, Prod.mk.injEq] at h <;> obtain ⟨rfl, rfl⟩ := h <;>
    simp only [event?, hu, bind, Option.bind, hplace]
  · exact .placeFails hu hplace
  · exact .place hu hplace

end Phases

/-- A worker steps by the rules. -/
theorem step_of_step? (h : w.step? c units s = some (s', w')) :
    Step c units s w.tally w.phase (w.event? units s) s' w' := by
  have hunit? : ∀ i, w.phase.unit? = some i → ∃ u, units[i]? = some u := fun i =>
    exists_unit_of_step? h
  obtain ⟨phase, y⟩ := w
  cases phase with
  | looking => exact step_of_looking h
  | taking => exact step_of_taking h
  | converting i =>
    obtain ⟨u, hu⟩ := hunit? i rfl
    exact step_of_converting hu h
  | claiming i t content =>
    obtain ⟨u, hu⟩ := hunit? i rfl
    exact step_of_claiming hu h
  | makingDirectory i t content =>
    obtain ⟨u, hu⟩ := hunit? i rfl
    exact step_of_makingDirectory hu h
  | placing i t content =>
    obtain ⟨u, hu⟩ := hunit? i rfl
    exact step_of_placing hu h
  -- what is left always goes on with the next phase
  | releasing i result =>
    obtain ⟨u, hu⟩ := hunit? i rfl
    simp only [step?, hu, bind, Option.bind, Option.some.injEq, Prod.mk.injEq] at h
    obtain ⟨rfl, rfl⟩ := h
    exact .release hu rfl
  | dropping i result =>
    obtain ⟨u, hu⟩ := hunit? i rfl
    simp only [step?, hu, bind, Option.bind, Option.some.injEq, Prod.mk.injEq] at h
    obtain ⟨rfl, rfl⟩ := h
    exact .drop hu
  | recording i result =>
    obtain ⟨u, hu⟩ := hunit? i rfl
    simp only [step?, hu, bind, Option.bind, pure, Option.some.injEq, Prod.mk.injEq] at h
    obtain ⟨rfl, rfl⟩ := h
    exact .record hu
  | finished => simp [step?] at h

/-- A worker that has not finished, and whose unit exists, can take a step. -/
theorem step?_isSome (hphase : w.phase ≠ .finished)
    (hunit : ∀ i, w.phase.unit? = some i → i < units.length) :
    (w.step? c units s).isSome = true := by
  obtain ⟨phase, y⟩ := w
  have hunit? : ∀ i, phase.unit? = some i → ∃ u, units[i]? = some u := fun i hi =>
    ⟨_, List.getElem?_eq_getElem (hunit i hi)⟩
  cases phase with
  | looking | taking => rfl
  | finished => exact absurd rfl hphase
  | converting i | claiming i _ _ | makingDirectory i _ _ =>
    obtain ⟨u, hu⟩ := hunit? i rfl
    simp only [step?, hu, bind, Option.bind]
    split <;> rfl
  | placing i _ _ | releasing i _ | dropping i _ | recording i _ =>
    obtain ⟨u, hu⟩ := hunit? i rfl
    simp only [step?, hu, bind, Option.bind]
    rfl

end Worker

/-! ### What operations leave alone -/

namespace Shared

variable {c : BuildConfig} {s s' : Shared} {u : PlannedUnit} {t : Target}

/-- Converting changes nothing but what is known of sources. -/
theorem convert_frame {answer : Except BuildError (Target × ByteArray)}
    (h : s.convert c u = (s', answer)) : s' = { s with sources := s'.sources } := by
  unfold convert at h
  cases htarget : c.targetOf u (s.source u).relative with
  | error e =>
    rw [htarget] at h
    obtain ⟨rfl, -⟩ := Prod.mk.inj h
    rfl
  | ok t =>
    rw [htarget] at h
    dsimp only at h
    split at h <;> rename_i hread <;> obtain ⟨rfl, -⟩ := Prod.mk.inj h <;>
      obtain ⟨rfl, -⟩ := Prod.mk.inj hread <;> rfl

/-- A claim changes nothing but the claims. -/
theorem claim_frame (h : s.claim t u = .ok s') : s' = { s with outputs := s'.outputs } := by
  unfold claim at h
  dsimp only at h
  split at h
  · obtain rfl := Except.ok.inj h
    rfl
  · simp at h

/-- Making a directory changes nothing but the tree. -/
theorem makeDirectory_frame {result : UnitResult} (h : s.makeDirectory t u = (s', result)) :
    s' = { s with tree := s'.tree } := by
  unfold makeDirectory at h
  split at h <;> obtain ⟨rfl, -⟩ := Prod.mk.inj h <;> rfl

/-- Putting an output in place changes nothing but the tree and the count. -/
theorem place_frame {content : ByteArray} {result : UnitResult}
    (h : s.place t u content = (s', result)) :
    s' = { s with tree := s'.tree, outputs := s'.outputs } := by
  unfold place at h
  split at h <;> obtain ⟨rfl, -⟩ := Prod.mk.inj h <;> rfl

/-- A claim counts nothing. -/
theorem claim_written (h : s.claim t u = .ok s') : s'.outputs.written = s.outputs.written := by
  unfold claim at h
  dsimp only at h
  split at h
  · rename_i outputs houtputs
    obtain rfl := Except.ok.inj h
    exact Outputs.written_of_claim houtputs
  · simp at h

/-- An output that is put in place is counted. -/
theorem exists_of_place {content : ByteArray} (h : s.place t u content = (s', .ok ())) :
    ∃ tree, Outputs.place s.tree t.outputRoot u.outputPath content = .ok tree ∧
      s' = { s with tree, outputs := s.outputs.count } := by
  unfold place at h
  split at h
  · rename_i tree htree
    exact ⟨tree, htree, (Prod.mk.inj h).1.symm⟩
  · simp at h

/-- An output that is not put in place leaves everything as it is. -/
theorem exists_of_placeFails {content : ByteArray} {e : BuildError}
    (h : s.place t u content = (s', .error e)) :
    s' = s ∧ ∃ cause, Outputs.place s.tree t.outputRoot u.outputPath content = .error cause ∧
      e = unitError (s.source u).relative cause := by
  unfold place at h
  split at h
  · simp at h
  · rename_i cause hcause
    obtain ⟨rfl, heq⟩ := Prod.mk.inj h
    exact ⟨rfl, cause, hcause, (Except.error.inj heq).symm⟩

/-- Letting go of a source changes nothing but what is known of sources. -/
theorem release_frame {isLast : Bool} (h : s.release u = (s', isLast)) :
    s' = { s with sources := s'.sources } := by
  obtain ⟨rfl, -⟩ := Prod.mk.inj h
  rfl

/-- Halting changes nothing else. -/
theorem haltAfter_frame (s : Shared) (result : UnitResult) :
    s.haltAfter result = { s with isHalted := (s.haltAfter result).isHalted } := by
  unfold haltAfter
  split <;> rfl

/-! ### Source files stay what they are -/

/-- The same source files are known, though not the same of their content. -/
def SameFiles (s s' : Shared) : Prop :=
  s'.sources.map (fun x => (x.absolute, x.relative)) =
    s.sources.map fun x => (x.absolute, x.relative)

theorem SameFiles.refl (s : Shared) : SameFiles s s := rfl

theorem SameFiles.trans {s'' : Shared} (h : SameFiles s s') (h' : SameFiles s' s'') :
    SameFiles s s'' := Eq.trans h' h

theorem SameFiles.of_sources_eq (h : s'.sources = s.sources) : SameFiles s s' := by
  rw [SameFiles, h]

/-- A source file that is changed at its place stays the file that it is. -/
theorem SameFiles.of_modify {i : Nat} {f : Source → Source} (h : s'.sources = s.sources.modify i f)
    (hf : ∀ x, (f x).absolute = x.absolute ∧ (f x).relative = x.relative) : SameFiles s s' := by
  rw [SameFiles, h]
  apply List.ext_getElem?
  intro k
  rw [List.getElem?_map, List.getElem?_map, List.getElem?_modify]
  cases s.sources[k]? with
  | none => simp
  | some x =>
    have hx := hf x
    by_cases hi : i = k <;> simp [hi, hx.1, hx.2]

theorem SameFiles.source_eq (h : SameFiles s s') (u : PlannedUnit) :
    (s'.source u).absolute = (s.source u).absolute ∧
      (s'.source u).relative = (s.source u).relative := by
  have hk := congrArg (·[u.source]?) h
  simp only [List.getElem?_map] at hk
  unfold source
  cases hleft : s'.sources[u.source]? <;> cases hright : s.sources[u.source]? <;>
    simp_all

/-- What asking for the content of a source leaves of the sources. -/
theorem read_sources (s : Shared) (u : PlannedUnit) :
    (s.read u).1.sources =
      s.sources.modify u.source fun x => (x.read s.tree).1 := by
  unfold read source
  dsimp only
  -- a source that is not there is neither set nor modified
  cases hx : s.sources[u.source]? with
  | none =>
    have hlength : s.sources.length ≤ u.source := by simpa using hx
    rw [List.set_eq_of_length_le hlength, List.modify_eq_self hlength]
  | some x =>
    rw [Option.getD_some, List.modify_eq_set_getElem?, hx]
    rfl

/-- Converting keeps the source files, or asks for the content of one. -/
theorem convert_sources {answer : Except BuildError (Target × ByteArray)}
    (h : s.convert c u = (s', answer)) :
    s'.sources = s.sources ∨ s'.sources = (s.read u).1.sources := by
  unfold convert at h
  cases htarget : c.targetOf u (s.source u).relative with
  | error e =>
    rw [htarget] at h
    obtain ⟨rfl, -⟩ := Prod.mk.inj h
    exact Or.inl rfl
  | ok t =>
    rw [htarget] at h
    dsimp only at h
    split at h <;> rename_i hread <;> obtain ⟨rfl, -⟩ := Prod.mk.inj h <;>
      exact Or.inr (by rw [hread])

theorem sameFiles_convert {answer : Except BuildError (Target × ByteArray)}
    (h : s.convert c u = (s', answer)) : SameFiles s s' := by
  rcases convert_sources h with hsources | hsources
  · exact SameFiles.of_sources_eq hsources
  · rw [read_sources] at hsources
    exact SameFiles.of_modify hsources fun x => ⟨rfl, rfl⟩

theorem sameFiles_release {isLast : Bool} (h : s.release u = (s', isLast)) : SameFiles s s' := by
  obtain ⟨rfl, -⟩ := Prod.mk.inj h
  exact SameFiles.of_modify rfl fun x => ⟨rfl, rfl⟩

theorem sameFiles_drop (s : Shared) (u : PlannedUnit) : SameFiles s (s.drop u) := by
  apply SameFiles.of_modify rfl
  intro x
  unfold Source.drop
  split_ifs <;> exact ⟨rfl, rfl⟩

end Shared

namespace Worker.Step

variable {c : BuildConfig} {units : List PlannedUnit} {s s' : Shared} {y : Tally} {phase : Phase}
  {event : Option Event} {w' : Worker}

/-- How many units have been taken changes only when a worker is about to take one. -/
theorem taken_eq (h : Step c units s y phase event s' w') :
    s'.taken = s.taken ∨ phase = .taking ∧ s'.taken = s.taken + 1 := by
  cases h with
  | halt | look | drop | claimFails => exact Or.inl rfl
  | take | nothingLeft => exact Or.inr ⟨rfl, rfl⟩
  | convert _ h | convertFails _ h => exact Or.inl (by rw [Shared.convert_frame h])
  | claim _ h => exact Or.inl (by rw [Shared.claim_frame h])
  | makeDirectory _ h | makeDirectoryFails _ h =>
    exact Or.inl (by rw [Shared.makeDirectory_frame h])
  | place _ h | placeFails _ h => exact Or.inl (by rw [Shared.place_frame h])
  | release _ h => exact Or.inl (by rw [Shared.release_frame h])
  | record _ => exact Or.inl (by rw [Shared.haltAfter_frame s _])

/-- Source files stay what they are. -/
theorem sameFiles (h : Step c units s y phase event s' w') : Shared.SameFiles s s' := by
  cases h with
  | halt | look | take | nothingLeft | claimFails => exact Shared.SameFiles.refl _
  | convert _ h | convertFails _ h => exact Shared.sameFiles_convert h
  | claim _ h => exact Shared.SameFiles.of_sources_eq (by rw [Shared.claim_frame h])
  | makeDirectory _ h | makeDirectoryFails _ h =>
    exact Shared.SameFiles.of_sources_eq (by rw [Shared.makeDirectory_frame h])
  | place _ h | placeFails _ h =>
    exact Shared.SameFiles.of_sources_eq (by rw [Shared.place_frame h])
  | release _ h => exact Shared.sameFiles_release h
  | drop _ => exact Shared.sameFiles_drop s _
  | record _ => exact Shared.SameFiles.of_sources_eq (by rw [Shared.haltAfter_frame s _])

/-- A step brings its worker closer to looking again, or takes a unit. -/
theorem rank_lt (h : Step c units s y phase event s' w') :
    10 * (units.length - s'.taken) + w'.phase.rank <
      10 * (units.length - s.taken) + phase.rank := by
  have htaken := h.taken_eq
  -- taking a unit makes up for all the steps that its worker goes back
  cases h with
  | take hlt | nothingLeft hlt =>
    simp only [Phase.rank]
    omega
  | release _ _ =>
    split_ifs <;> simp only [Phase.rank] at * <;> simp_all
  | _ =>
    simp only [Phase.rank] at *
    simp_all

/-- A worker is at the unit it was at, or at one that it took. -/
theorem unit?_of_unit? {i : Nat} (h : Step c units s y phase event s' w')
    (hi : w'.phase.unit? = some i) :
    phase.unit? = some i ∨ i = s.taken ∧ s.taken < units.length := by
  cases h with
  | take hlt => exact Or.inr ⟨(Option.some_inj.mp hi).symm, hlt⟩
  | release _ _ =>
    refine Or.inl ?_
    split_ifs at hi <;> exact hi
  | halt | look | nothingLeft | record => simp [Phase.unit?] at hi
  | _ => exact Or.inl hi

end Worker.Step

end Filewise
