import Filewise.Plan.Planner
import Filewise.Proofs.Dict
import Filewise.Proofs.Value.Printer

/-!
# Remembering validations changes nothing

A validation is remembered by the id of the transformer and the text of the options. As the text
tells the options, and the registry tells the transformer, what is remembered is what validating
would give again. So the steps and the faults of a chain do not depend on what was planned before.

## Main definitions

* `Registry.fault?`, `Registry.planned?`: what is wrong with a step of a chain, and the planned
  step if nothing is.
* `ValidationCache.IsFaithful`: everything that is remembered was found with this registry.
* `BuildConfig.HasJsonOptions`: all options of a configuration are values that JSON can hold.

## Main results

* `ValidationCache.IsFaithful.validate`: a remembered validation is the validation itself.
* `Planner.planSteps_eq`: the steps and the faults of a chain.
-/

namespace Filewise

namespace Registry

variable [Schema.Compiler] {registry : Registry} {step : ChainStep} {steps : List ChainStep}

/-- What is wrong with a step of a chain: its id is not known, or its options are not valid. -/
def fault? (registry : Registry) (step : ChainStep) : Option BuildError :=
  match registry.resolve step.transformer with
  | .error e => some (.registry e)
  | .ok t =>
    match validateOptions t.schema step.options with
    | .ok _ => none
    | .error violations => some (.schemaValidation step.transformer violations)

/-- The planned step for a step of a chain with which nothing is wrong. -/
def planned? (registry : Registry) (step : ChainStep) : Option PlannedStep :=
  match registry.resolve step.transformer with
  | .error _ => none
  | .ok t =>
    match validateOptions t.schema step.options with
    | .ok options => some ⟨t, options⟩
    | .error _ => none

/-- A step names a transformer of the registry and has valid options. -/
def IsValid (registry : Registry) (step : ChainStep) : Prop :=
  ∃ t options, registry.resolve step.transformer = .ok t ∧
    validateOptions t.schema step.options = .ok options

/-- Nothing is wrong with a valid step, and with no other one. -/
theorem fault?_eq_none_iff : registry.fault? step = none ↔ registry.IsValid step := by
  unfold fault? IsValid
  cases registry.resolve step.transformer with
  | error e => simp
  | ok t => cases hoptions : validateOptions t.schema step.options <;> simp [hoptions]

end Registry

namespace ValidationCache

variable [Schema.Compiler] {registry : Registry} {c : ValidationCache} {t : Transformer}
  {step : ChainStep}

/-- Everything that is remembered was found by validating options of a transformer of the
registry. -/
def IsFaithful (registry : Registry) (c : ValidationCache) : Prop :=
  ∀ e ∈ c.entries, ∃ t options, registry.resolve e.transformer = .ok t ∧
    Value.haveJson options = true ∧ e.optionsText = Value.compactOptions options ∧
    e.result = validateOptions t.schema options

theorem isFaithful_empty (registry : Registry) : empty.IsFaithful registry := by
  simp [IsFaithful, empty]

/-- What is remembered is what validating gives. -/
theorem IsFaithful.eq_of_find? {result : Validated} (h : c.IsFaithful registry)
    (ht : registry.resolve step.transformer = .ok t)
    (hjson : Value.haveJson step.options = true)
    (hfind : c.find? step.transformer (Value.compactOptions step.options) = some result) :
    result = validateOptions t.schema step.options := by
  obtain ⟨e, he, rfl⟩ := Option.map_eq_some_iff.mp hfind
  have hkey := List.find?_some he
  rw [Bool.and_eq_true, beq_iff_eq, beq_iff_eq] at hkey
  obtain ⟨t', options, ht', hjson', htext, hresult⟩ := h e (List.mem_of_find?_eq_some he)
  -- the id tells the transformer, and the text tells the options
  rw [hkey.1, ht, Except.ok.injEq] at ht'
  have hoptions := Value.eq_of_compactOptions hjson' hjson (htext.symm.trans hkey.2)
  rw [hresult, ht', hoptions]

/-- A remembered validation is the validation itself. -/
theorem IsFaithful.validate (h : c.IsFaithful registry)
    (ht : registry.resolve step.transformer = .ok t)
    (hjson : Value.haveJson step.options = true) :
    (c.validate t step).2 = validateOptions t.schema step.options ∧
      (c.validate t step).1.IsFaithful registry := by
  unfold ValidationCache.validate
  dsimp only
  split
  · rename_i result hfind
    exact ⟨h.eq_of_find? ht hjson hfind, h⟩
  · refine ⟨rfl, fun e he => ?_⟩
    rcases List.mem_cons.mp he with rfl | he
    · exact ⟨t, step.options, ht, hjson, rfl, rfl⟩
    · exact h e he

end ValidationCache

namespace Planner

variable [Schema.Compiler] {registry : Registry} {cache : ValidationCache} {step : ChainStep}
  {steps : List ChainStep}

/-- A step is planned as if nothing was remembered. -/
theorem planStep_eq (h : cache.IsFaithful registry)
    (hjson : Value.haveJson step.options = true) :
    (planStep registry cache step).1.IsFaithful registry ∧
      ((∃ s, (planStep registry cache step).2 = .ok s ∧ registry.planned? step = some s ∧
          registry.fault? step = none) ∨
        ∃ e, (planStep registry cache step).2 = .error e ∧ registry.planned? step = none ∧
          registry.fault? step = some e) := by
  unfold planStep Registry.planned? Registry.fault?
  cases ht : registry.resolve step.transformer with
  | error e => exact ⟨h, Or.inr ⟨_, rfl, rfl, rfl⟩⟩
  | ok t =>
    obtain ⟨hresult, hfaithful⟩ := h.validate ht hjson
    dsimp only
    rw [← hresult]
    rcases hvalidate : cache.validate t step with ⟨cache', options | options⟩ <;>
      rw [hvalidate] at hfaithful
    · exact ⟨hfaithful, Or.inr ⟨_, rfl, rfl, rfl⟩⟩
    · exact ⟨hfaithful, Or.inl ⟨_, rfl, rfl, rfl⟩⟩

/-- The steps for a chain are those of its valid steps, and its faults those of the others, both in
the order of the chain. -/
theorem planSteps_eq (h : cache.IsFaithful registry)
    (hjson : ∀ step ∈ steps, Value.haveJson step.options = true) :
    (planSteps registry cache steps).1.IsFaithful registry ∧
      (planSteps registry cache steps).2 =
        (steps.filterMap registry.planned?, steps.filterMap registry.fault?) := by
  induction steps generalizing cache with
  | nil => exact ⟨h, rfl⟩
  | cons step rest ih =>
    obtain ⟨hfaithful, hstep⟩ := planStep_eq h (hjson step List.mem_cons_self)
    obtain ⟨hrest, heq⟩ := ih hfaithful fun s hs => hjson s (List.mem_cons_of_mem _ hs)
    unfold planSteps
    rcases hplanStep : planStep registry cache step with ⟨cache', planned⟩
    rcases hplanSteps : planSteps registry cache' rest with ⟨cache'', steps', errors⟩
    rw [hplanStep] at hstep hrest heq
    dsimp only at hstep hrest heq
    rw [hplanSteps] at hrest heq
    rw [Prod.mk.injEq] at heq
    obtain ⟨rfl, rfl⟩ := heq
    rcases hstep with ⟨s, rfl, hplanned, hfault⟩ | ⟨e, rfl, hplanned, hfault⟩
    · dsimp only
      rw [hplanSteps]
      exact ⟨hrest, by simp [hplanned, hfault]⟩
    · dsimp only
      rw [hplanSteps]
      exact ⟨hrest, by simp [hplanned, hfault]⟩

end Planner

/-! ### Options of configurations -/

namespace Value

variable {fields : List (String × Value)}

theorem haveJson_iff :
    haveJson fields = true ↔ ∀ field ∈ fields, field.2.isJson = true := by
  refine ⟨fun h field hfield => isJson_of_haveJson h hfield, fun h => ?_⟩
  induction fields with
  | nil => rfl
  | cons field rest ih =>
    obtain ⟨name, item⟩ := field
    rw [haveJson, Bool.and_eq_true]
    exact ⟨h _ List.mem_cons_self, ih fun f hf => h f (List.mem_cons_of_mem _ hf)⟩

end Value

namespace Target

variable {t : Target} {entries : List ChainEntry} {p : Path} {step : ChainStep}

/-- All options of the entries of a chain are values that JSON can hold. -/
def HaveJsonOptions (entries : List ChainEntry) : Prop :=
  ∀ entry ∈ entries, ∀ options ∈ entry.options?, Value.haveJson options = true

/-- All options of a target are values that JSON can hold. -/
structure HasJsonOptions (t : Target) : Prop where
  transformers : ∀ entry ∈ t.transformers, Value.haveJson entry.2 = true
  chains : ∀ entry ∈ t.chains, HaveJsonOptions entry.2
  defaultChain : HaveJsonOptions t.defaultChain

instance : Decidable (HaveJsonOptions entries) :=
  inferInstanceAs (Decidable (∀ entry ∈ entries, ∀ options ∈ entry.options?, _))

instance : Decidable t.HasJsonOptions :=
  decidable_of_iff ((∀ entry ∈ t.transformers, Value.haveJson entry.2 = true) ∧
    (∀ entry ∈ t.chains, HaveJsonOptions entry.2) ∧ HaveJsonOptions t.defaultChain)
    ⟨fun ⟨h, h', h''⟩ => ⟨h, h', h''⟩, fun h => ⟨h.1, h.2, h.3⟩⟩

/-- The entries that apply to a path belong to a chain of the target. -/
theorem HasJsonOptions.entriesFor (h : t.HasJsonOptions) (p : Path) :
    HaveJsonOptions (t.entriesFor p).2 := by
  unfold Target.entriesFor
  dsimp only
  cases hfound : p.extensionCandidates.findSome? fun e =>
      (t.chainFor? e).map fun entries => (ChainMatch.extension e, entries) with
  | none => exact h.defaultChain
  | some found =>
    obtain ⟨e, -, hchain⟩ := List.exists_of_findSome?_eq_some hfound
    obtain ⟨entries, hentries, rfl⟩ := Option.map_eq_some_iff.mp hchain
    rcases Option.or_eq_some_iff.mp hentries with hentries | ⟨-, hentries⟩
    · exact h.chains _ (Dict.mem_of_find? hentries)
    · exact h.chains _ (Dict.mem_of_find? hentries)

/-- The options of a resolved chain come from the target. -/
theorem HasJsonOptions.resolve (h : t.HasJsonOptions) (hstep : step ∈ (t.resolve p).steps) :
    Value.haveJson step.options = true := by
  obtain ⟨entry, hentry, rfl⟩ : ∃ entry ∈ (t.entriesFor p).2, t.stepFor entry = step := by
    unfold Target.resolve at hstep
    dsimp only at hstep
    split_ifs at hstep with hempty
    · simp [ResolvedChain.steps] at hstep
    · exact List.mem_map.mp hstep
  rw [Value.haveJson_iff]
  intro field hfield
  rcases Dict.mem_of_mem_overlay hfield with hbase | hown
  · cases hfind : t.transformers.find? entry.transformer with
    | none => simp [hfind] at hbase
    | some options =>
      rw [hfind, Option.getD_some] at hbase
      exact Value.isJson_of_haveJson (h.transformers _ (Dict.mem_of_find? hfind)) hbase
  · cases hoptions : entry.options? with
    | none => simp [hoptions] at hown
    | some options =>
      rw [hoptions, Option.getD_some] at hown
      exact Value.isJson_of_haveJson (h.entriesFor p entry hentry options hoptions) hown

end Target

/-- All options of a configuration are values that JSON can hold: none of them has a floating-point
number that is infinite or undefined. -/
def BuildConfig.HasJsonOptions (c : BuildConfig) : Prop := ∀ t ∈ c.targets, t.HasJsonOptions

instance (c : BuildConfig) : Decidable c.HasJsonOptions :=
  inferInstanceAs (Decidable (∀ t ∈ c.targets, _))

end Filewise
