import Filewise.Proofs.Plan.Planner
import Filewise.Proofs.Plan.Validation

/-!
# From files to candidates

The files of a target are looked at one after the other. A clean file, with whose chain nothing
is wrong, becomes a candidate for a unit; of any other file all faults are noted. Candidates are
shown by the files that they were made from, also when another target has shown the file first,
as long as no source root lies inside another one.

## Main definitions

* `Target.IsClean`, `Target.faults`: whether something is wrong with the chain of a file, and what.
* `Target.IsUnitFor`: the unit for a clean file of a target.
* `Path.IsInside`: whether names lead from one path to another.
* `BuildConfig.HasApartSources`: no source root lies inside another one.

## Main results

* `Planner.Sorted.planFiles`: what is known of the files that have been looked at.
* `Project.IsFreshSource.relative_eq`: by which path a source is shown.
-/

namespace Filewise

namespace Target

variable [Schema.Compiler] {t : Target} {registry : Registry} {f : Path} {i : Nat}
  {u : PlannedUnit} {sources : List Source}

/-! ### What becomes of a file -/

/-- Every step of the chain of the file names a transformer and has valid options. -/
def IsClean (t : Target) (registry : Registry) (f : Path) : Prop :=
  ∀ step ∈ (t.resolve f).steps, registry.IsValid step

/-- Everything that is wrong with the chain of a file, in the order of the chain. -/
def faults (t : Target) (registry : Registry) (f : Path) : List BuildError :=
  (t.resolve f).steps.filterMap registry.fault?

/-- The errors that are reported for a file. -/
def faultErrors (t : Target) (registry : Registry) (f : Path) : List UnitError :=
  (t.faults registry f).map fun e => ⟨t.id, some f, e⟩

/-- The steps of the chain of a file, as they are planned. -/
def plannedSteps (t : Target) (registry : Registry) (f : Path) : List PlannedStep :=
  (t.resolve f).steps.filterMap registry.planned?

/-- Where the result for a file goes. -/
def outputFor (t : Target) (registry : Registry) (f : Path) : OutputPath :=
  OutputPath.ofSteps f (t.plannedSteps registry f)

/-- A file is clean if nothing is wrong with its chain. -/
theorem faults_eq_nil_iff : t.faults registry f = [] ↔ t.IsClean registry f := by
  rw [faults, List.filterMap_eq_nil_iff]
  exact forall₂_congr fun step _ => Registry.fault?_eq_none_iff

instance : Decidable (t.IsClean registry f) := decidable_of_iff _ faults_eq_nil_iff

/-- The clean ones among files. -/
def clean (t : Target) (registry : Registry) (files : List Path) : List Path :=
  files.filter (t.IsClean registry ·)

/-- The unit that is planned for a clean file of a target. -/
structure IsUnitFor (t : Target) (registry : Registry) (i : Nat) (sources : List Source) (f : Path)
    (u : PlannedUnit) : Prop where
  targetIndex : u.targetIndex = i
  target : u.target = t.id
  steps : u.steps = t.plannedSteps registry f
  outputPath : u.outputPath = (t.outputFor registry f).path
  extensionSetBy : u.extensionSetBy = (t.outputFor registry f).setBy
  source : Source.IsAt sources u.source (t.sourceRoot.join f)

end Target

namespace Planner

variable [Schema.Compiler]
  {registry : Registry} {t : Target} {i : Nat} {start p : Planner} {done rest : List Path}
  {f : Path} {state : Planner × List PlannedUnit}

/-! ### Looking at files -/

/-- What is known when some files of a target have been looked at: the clean ones are candidates,
and the faults of the others are noted. -/
structure Sorted (registry : Registry) (t : Target) (i : Nat) (start : Planner) (done : List Path)
    (state : Planner × List PlannedUnit) : Prop where
  cache : state.1.cache.IsFaithful registry
  errors : state.1.errors = start.errors ++ done.flatMap (t.faultErrors registry)
  candidates : List.Forall₂ (t.IsUnitFor registry i state.1.sources) (t.clean registry done) state.2

/-- One more file was looked at. -/
theorem Sorted.planFile (h : Sorted registry t i start done state) (hjson : t.HasJsonOptions) :
    Sorted registry t i start (done ++ [f]) (planFile registry i t state f) := by
  obtain ⟨p, candidates⟩ := state
  obtain ⟨hcache, hsteps⟩ := planSteps_eq h.cache fun step => hjson.resolve (p := f)
  unfold Planner.planFile
  dsimp only at hcache hsteps ⊢
  rcases hplan : planSteps registry p.cache (t.resolve f).steps with ⟨cache, steps, errors⟩
  rw [hplan] at hcache hsteps
  obtain ⟨hsteps, hfaults⟩ := Prod.mk.inj hsteps
  change steps = t.plannedSteps registry f at hsteps
  change errors = t.faults registry f at hfaults
  have hclean : t.clean registry (done ++ [f]) =
      t.clean registry done ++ t.clean registry [f] := List.filter_append _ _
  have herrors := h.errors
  have hcandidates := h.candidates
  dsimp only at hcache herrors hcandidates ⊢
  have hempty : errors.isEmpty = true ↔ t.IsClean registry f := by
    rw [List.isEmpty_iff, hfaults, Target.faults_eq_nil_iff]
  split_ifs with hf
  · -- a clean file is one more candidate, and the sources of the others stay where they are
    rw [hempty] at hf
    have hnone : t.faultErrors registry f = [] := by
      rw [Target.faultErrors, Target.faults_eq_nil_iff.mpr hf, List.map_nil]
    obtain ⟨hat, more, hmore, -⟩ := addSource_spec p.sources (t.sourceRoot.join f) f
    refine ⟨hcache, ?_, ?_⟩
    · simp [herrors, hnone]
    · rw [hclean, Target.clean, Target.clean, List.filter_cons_of_pos (by simpa using hf)]
      refine List.rel_append (hcandidates.imp fun g u hu => ?_) (.cons ?_ .nil)
      · exact { hu with source := hu.source.of_prefix ⟨more, hmore.symm⟩ }
      · rw [hsteps]
        exact ⟨rfl, rfl, rfl, rfl, rfl, hat⟩
  · -- the faults of any other file are noted
    rw [hempty] at hf
    rw [failAll_eq, hfaults]
    refine ⟨hcache, ?_, ?_⟩
    · simp [herrors, Target.faultErrors]
    · have hnone : t.clean registry [f] = [] := List.filter_cons_of_neg (by simpa using hf)
      rw [hclean, hnone, List.append_nil]
      exact hcandidates

/-- All files were looked at. -/
theorem Sorted.planFiles (h : Sorted registry t i start done state) (hjson : t.HasJsonOptions) :
    Sorted registry t i start (done ++ rest)
      (rest.foldl (Planner.planFile registry i t) state) := by
  induction rest generalizing done state with
  | nil => rwa [List.append_nil]
  | cons f rest ih =>
    rw [List.append_cons]
    exact ih (h.planFile hjson)

end Planner

/-! ### How files are shown -/

/-- Names lead from one path to the other. -/
def Path.IsInside (p base : Path) : Prop :=
  ∃ names : Location, names ≠ [] ∧ p.components = base.components ++ names.map .name

namespace Path

variable {p q : Path} {names names' : Location} {between rest : List Component}

theorem not_isInside_self (p : Path) : ¬p.IsInside p := by
  rintro ⟨names, hne, hcomponents⟩
  simp [hne] at hcomponents

theorem eq_nil_of_not_isInside (h : ¬p.IsInside q) (hp : p.components = q.components ++ between)
    (hnames : names.map Component.name = between ++ rest) : between = [] := by
  obtain ⟨inside, -, -, rfl, -⟩ := List.map_eq_append_iff.mp hnames
  by_contra hne
  exact h ⟨inside, fun hnil => hne (by rw [hnil, List.map_nil]), hp⟩

/-- Paths that do not lie inside one another are left by different names for different places. -/
theorem names_eq_of_append_eq (hp : ¬p.IsInside q) (hq : ¬q.IsInside p)
    (h : p.components ++ names.map .name = q.components ++ names'.map .name) : names = names' := by
  rcases List.append_eq_append_iff.mp h with ⟨between, hroot, hnames⟩ | ⟨between, hroot, hnames⟩
  · rw [eq_nil_of_not_isInside hq hroot hnames, List.nil_append] at hnames
    exact map_name_injective hnames
  · rw [eq_nil_of_not_isInside hp hroot hnames, List.nil_append] at hnames
    exact (map_name_injective hnames).symm

end Path

/-- No source root lies strictly inside another one. -/
def BuildConfig.HasApartSources (c : BuildConfig) : Prop :=
  ∀ t ∈ c.targets, ∀ t' ∈ c.targets, ¬t'.sourceRoot.IsInside t.sourceRoot

namespace Project

variable {project : Project} {tree : Tree} {t : Target} {f : Path} {s : Source}

/-- No source root lies inside another one, so a file goes by the same path for every target that
has it. -/
theorem Enumerates.eq_of_same {t' : Target} {g : Path} (h : project.Enumerates tree t f)
    (h' : project.Enumerates tree t' g) (htree : tree.WellFormed)
    (hroots : project.config.HasApartSources) (ht : t ∈ project.config.targets)
    (ht' : t' ∈ project.config.targets)
    (hsame : (t.sourceRoot.join f).same (t'.sourceRoot.join g) = true) : f = g := by
  obtain ⟨names, hnames⟩ := h.exists_names htree
  obtain ⟨names', hnames'⟩ := h'.exists_names htree
  rw [Path.same_iff, h.components_join htree, h'.components_join htree, hnames.components_eq,
    hnames'.components_eq] at hsame
  rw [hnames.eq_ofNames, hnames'.eq_ofNames,
    Path.names_eq_of_append_eq (hroots t' ht' t ht) (hroots t ht t' ht') hsame]

/-- A source is shown by the path that its file goes by. -/
theorem IsFreshSource.relative_eq (hs : project.IsFreshSource tree s) (htree : tree.WellFormed)
    (hroots : project.config.HasApartSources) (ht : t ∈ project.config.targets)
    (hf : project.Enumerates tree t f)
    (hsame : s.absolute.same (t.sourceRoot.join f) = true) : s.relative = f := by
  obtain ⟨-, t', ht', henumerated, habsolute⟩ := hs
  exact henumerated.eq_of_same hf htree hroots ht' ht (habsolute ▸ hsame)

end Project

end Filewise
