import Filewise.Engine.Standard
import Filewise.Proofs.Plan.Candidates
import Filewise.Schema.Standard

/-!
# Planning a file whatever was planned before

Validations are remembered over all files and targets of a plan. What is remembered for a step is
what validating it gives, whichever steps were validated before. So a file gets the same steps,
options, output path and errors after any other files of any targets as it gets with nothing
planned before it.

## Main definitions

* `ValidationCache.validateAll`: steps that are validated one after the other with one memory.
* `Planner.Reached`: the plans that can be under way.
* `Planner.additions`: what a file adds to a plan.

## Main results

* `Project.exists_reached`: the plans of whole projects are among those that can be under way.
* `Planner.Reached.additions_eq`: what a file adds to a plan that is under way.
* `ValidationCache.transparent`: neither validations nor plans depend on what is remembered.
-/

namespace Filewise

variable {registry : Registry}

/-! ### Sequences of steps -/

namespace ValidationCache

variable [Schema.Compiler] {c : ValidationCache} {steps : List (Transformer × ChainStep)}

/-- Validates steps one after the other, each for its transformer, and remembers all of them. -/
def validateAll (c : ValidationCache) :
    List (Transformer × ChainStep) → ValidationCache × List Validated
  | [] => (c, [])
  | (t, step) :: rest =>
    let first := c.validate t step
    let later := first.1.validateAll rest
    (later.1, first.2 :: later.2)

/-- Steps that are validated one after the other give what each of them gives. -/
theorem IsFaithful.validateAll (h : c.IsFaithful registry)
    (hsteps : ∀ e ∈ steps, registry.resolve e.2.transformer = .ok e.1 ∧
      Value.haveJson e.2.options = true) :
    (c.validateAll steps).2 = steps.map (fun e => validateOptions e.1.schema e.2.options) ∧
      (c.validateAll steps).1.IsFaithful registry := by
  induction steps generalizing c with
  | nil => exact ⟨rfl, h⟩
  | cons e rest ih =>
    obtain ⟨hresolve, hjson⟩ := hsteps e List.mem_cons_self
    obtain ⟨hresult, hfaithful⟩ := h.validate hresolve hjson
    obtain ⟨hresults, hlast⟩ := ih hfaithful fun e he => hsteps e (List.mem_cons_of_mem _ he)
    refine ⟨?_, hlast⟩
    rw [List.map_cons, ← hresult, ← hresults]
    rfl

end ValidationCache

/-! ### Plans under way -/

namespace Planner

variable [Schema.Compiler] {p : Planner} {t : Target} {f : Path} {i : Nat} {files : List Path}
  {state : Planner × List PlannedUnit}

/-- The plans that can be under way: files of any targets have been looked at in any order, any
units have been settled, and any errors have been added. -/
inductive Reached (registry : Registry) : Planner → Prop
  | empty : Reached registry empty
  | planFile {p : Planner} {t : Target} (i : Nat) (candidates : List PlannedUnit) (f : Path) :
      Reached registry p → t.HasJsonOptions →
      Reached registry (planFile registry i t (p, candidates) f).1
  | settle {p : Planner} (target : String) (g : OutputGroup) :
      Reached registry p → Reached registry (settle target p g)
  | fail {p : Planner} (target : String) (source : Option Path) (e : BuildError) :
      Reached registry p → Reached registry (p.fail target source e)

/-- What a file adds to a plan, as far as it is seen in the unit and in the errors. -/
structure Additions where
  steps : List (List PlannedStep)
  outputs : List OutputPath
  errors : List UnitError

/-- What a file adds to a plan. -/
def additions (registry : Registry) (i : Nat) (t : Target) (f : Path) (p : Planner) : Additions :=
  let state := planFile registry i t (p, []) f
  { steps := state.2.map PlannedUnit.steps
    outputs := state.2.map fun u => ⟨u.outputPath, u.extensionSetBy⟩
    errors := state.1.errors.drop p.errors.length }

/-- The candidates that were found before do not matter for the plan. -/
theorem planFile_fst (registry : Registry) (i : Nat) (t : Target) (p : Planner)
    (candidates : List PlannedUnit) (f : Path) :
    (planFile registry i t (p, candidates) f).1 = (planFile registry i t (p, []) f).1 := by
  unfold planFile
  rcases planSteps registry p.cache (t.resolve f).steps with ⟨cache, steps, errors⟩
  dsimp only
  split_ifs <;> rfl

/-- Before any file of a target was looked at, nothing is known but what is remembered. -/
theorem sorted_nil (t : Target) (i : Nat) (h : p.cache.IsFaithful registry) :
    Sorted registry t i p [] (p, []) :=
  ⟨h, by simp, List.Forall₂.nil⟩

namespace Reached

theorem planFiles (h : Reached registry state.1) (hjson : t.HasJsonOptions) :
    Reached registry (files.foldl (Planner.planFile registry i t) state).1 := by
  induction files generalizing state with
  | nil => exact h
  | cons f files ih => exact ih (h.planFile i state.2 f hjson)

theorem settleAll (h : Reached registry p) (target : String) (gs : List OutputGroup) :
    Reached registry (gs.foldl (Planner.settle target) p) := by
  induction gs generalizing p with
  | nil => exact h
  | cons g gs ih => exact ih (h.settle target g)

/-- Plans of whole targets are among those that can be under way. -/
theorem planTarget (h : Reached registry p) (hjson : t.HasJsonOptions) (tree : Tree)
    (skip : List Path) (i : Nat) : Reached registry (p.planTarget registry tree skip i t) := by
  obtain ⟨e, heq, -⟩ | ⟨files, state, -, -, rfl, heq⟩ :=
    planTarget_cases registry tree skip p i t
  · rw [heq]
    exact h.fail t.id none e
  · rw [heq]
    exact (h.planFiles hjson).settleAll t.id _

/-- Whatever was planned, everything that is remembered was found with the registry. -/
theorem isFaithful (h : Reached registry p) : p.cache.IsFaithful registry := by
  induction h with
  | empty => exact ValidationCache.isFaithful_empty registry
  | @planFile p t i candidates f _ hjson ih =>
    rw [planFile_fst]
    exact (sorted_nil t i ih).planFile hjson |>.cache
  | @settle p target g _ ih => exact cache_settleAll target p [g] ▸ ih
  | fail _ _ _ _ ih => exact ih

/-- What a file adds to a plan that is under way: its steps and its output path if nothing is wrong
with its chain, and otherwise all that is wrong. -/
theorem additions_eq (h : Reached registry p) (hjson : t.HasJsonOptions) (i : Nat) (f : Path) :
    additions registry i t f p =
      ⟨if t.IsClean registry f then [t.plannedSteps registry f] else [],
        if t.IsClean registry f then [t.outputFor registry f] else [],
        t.faultErrors registry f⟩ := by
  have hsorted := (sorted_nil t i h.isFaithful).planFile hjson (f := f)
  have hcandidates := hsorted.candidates
  have hclean : t.clean registry ([] ++ [f]) = if t.IsClean registry f then [f] else [] := by
    simp [Target.clean, List.filter_cons]
  rw [hclean] at hcandidates
  unfold additions
  dsimp only
  rw [hsorted.errors, List.drop_left]
  -- a clean file has one candidate, any other none
  split_ifs at hcandidates ⊢ with hf
  · obtain ⟨u, rest, hu, hrest, hstate⟩ := List.forall₂_cons_left_iff.mp hcandidates
    rw [hstate, List.forall₂_nil_left_iff.mp hrest]
    simp [hu.steps, hu.outputPath, hu.extensionSetBy]
  · rw [List.forall₂_nil_left_iff.mp hcandidates]
    simp

end Reached

end Planner

/-- Every plan that is made for a tree is one of those that can be under way. -/
theorem Project.exists_reached [Schema.Compiler] {project : Project}
    (hjson : project.config.HasJsonOptions) (tree : Tree) :
    ∃ p, Planner.Reached project.registry p ∧ project.plan tree = p.result := by
  refine plan_induction (motive := fun _ p => Planner.Reached project.registry p) .empty ?_
  intro k t p ht hp
  exact hp.planTarget (hjson t (List.mem_of_getElem? ht)) tree project.skip k

/-! ### No memory is seen -/

/-- Validations with a memory give what validations without one give, and a file gets the same
steps, options, output path and errors whatever was planned before it. -/
theorem ValidationCache.transparent [Schema.Compiler] (registry : Registry) :
    (∀ steps : List (Transformer × ChainStep),
      (∀ e ∈ steps, registry.resolve e.2.transformer = .ok e.1 ∧
        Value.haveJson e.2.options = true) →
      (empty.validateAll steps).2 =
        steps.map fun e => validateOptions e.1.schema e.2.options) ∧
    ∀ (p : Planner) (i : Nat) (t : Target) (f : Path), Planner.Reached registry p →
      t.HasJsonOptions →
      Planner.additions registry i t f p = Planner.additions registry i t f Planner.empty := by
  refine ⟨fun steps hsteps => ((isFaithful_empty registry).validateAll hsteps).1,
    fun p i t f hp hjson => ?_⟩
  rw [hp.additions_eq hjson, Planner.Reached.empty.additions_eq hjson]

/-- Steps of which two are the same, one has other options, and one another transformer. -/
def bannerSteps : List (Transformer × ChainStep) :=
  [(Engine.banner, ⟨"banner", [("text", .text "x")]⟩),
    (Engine.banner, ⟨"banner", [("text", .integer 1)]⟩),
    (Engine.stripComments, ⟨"strip-comments", [("text", .text "x")]⟩),
    (Engine.banner, ⟨"banner", [("text", .text "x")]⟩)]

/-- A target whose files would get a banner that is no text. -/
def faultyTarget : Target :=
  (Target.new "cjs" ⟨"/src"⟩ ⟨"/lib"⟩).withDefaultChain
    [.configured "banner" [("text", .integer 1)]]

/-- The plan after a file whose options are not valid. -/
def afterFaulty : Planner :=
  (Planner.planFile .standard 1 faultyTarget (Planner.empty, []) ⟨"a.js"⟩).1

theorem bannerSteps_transparent :
    ((ValidationCache.empty.validateAll bannerSteps).1.entries.length = 3 ∧
      (ValidationCache.empty.validateAll bannerSteps).2.map Except.isOk =
        [true, false, false, true] ∧
      (ValidationCache.empty.validateAll bannerSteps).2 =
        bannerSteps.map fun e => validateOptions e.1.schema e.2.options) ∧
    afterFaulty.cache.entries.length = 1 ∧
    Planner.additions .standard 1 faultyTarget ⟨"b.js"⟩ afterFaulty =
      Planner.additions .standard 1 faultyTarget ⟨"b.js"⟩ Planner.empty :=
  ⟨⟨by decide +kernel, by decide +kernel,
    (ValidationCache.transparent .standard).1 bannerSteps <| by
      simp only [bannerSteps, List.forall_mem_cons]
      exact ⟨⟨rfl, rfl⟩, ⟨rfl, rfl⟩, ⟨rfl, rfl⟩, ⟨rfl, rfl⟩, List.forall_mem_nil _⟩⟩,
    by decide +kernel,
    (ValidationCache.transparent .standard).2 afterFaulty 1 faultyTarget ⟨"b.js"⟩
      (Planner.Reached.empty.planFile 1 [] ⟨"a.js"⟩ (by decide +kernel)) (by decide +kernel)⟩

end Filewise
