import Filewise.Proofs.Plan.Records

/-!
# Plans account for every file

Each file of a target that can be planned is in one of three classes. Either it becomes one unit,
or all faults of its chain are reported, or one error names it together with the other files that
go to the same place. Nothing else is planned or reported for the target.

## Main definitions

* `Target.rivals`: the clean files that go to the same place.
* `FileClass`, `Plan.HasClass`: the class of a file, with what the plan has for it.

## Main results

* `Project.plan_accounts_for_files`: each file is in exactly one class, and units are in strictly
  ascending order.
-/

namespace Filewise

/-- The only element that fits is all that is left of a list without duplicates. -/
theorem filter_eq_singleton {α : Type} {l : List α} {fits : α → Bool} {a : α} (hl : l.Nodup)
    (ha : a ∈ l) (hfits : fits a = true) (honly : ∀ b ∈ l, fits b = true → b = a) :
    l.filter fits = [a] := by
  refine List.perm_singleton.mp <|
    (List.perm_ext_iff_of_nodup (hl.filter _) (List.nodup_singleton a)).mpr fun b => ?_
  rw [List.mem_filter, List.mem_singleton]
  constructor
  · exact fun ⟨hb, hfits⟩ => honly b hb hfits
  · rintro rfl
    exact ⟨ha, hfits⟩

/-- What fits in a list that is put together from parts is all of one part and nothing else. -/
theorem filter_flatMap_eq {α β : Type} {l : List α} {parts : α → List β} {fits : β → Bool} {a : α}
    (hl : l.Nodup) (ha : a ∈ l) (hfits : ∀ b ∈ parts a, fits b = true)
    (honly : ∀ a' ∈ l, a' ≠ a → ∀ b ∈ parts a', ¬fits b = true) :
    (l.flatMap parts).filter fits = parts a := by
  obtain ⟨before, after, rfl⟩ := List.append_of_mem ha
  have hnone : ∀ l' : List α, (∀ a' ∈ l', a' ∈ before ++ a :: after ∧ a' ≠ a) →
      (l'.flatMap parts).filter fits = [] := by
    intro l' hl'
    refine List.filter_eq_nil_iff.mpr fun b hb => ?_
    obtain ⟨a', ha', hb⟩ := List.mem_flatMap.mp hb
    exact honly a' (hl' a' ha').1 (hl' a' ha').2 b hb
  have hnot := List.nodup_middle.mp hl
  have hne : ∀ a' ∈ before ++ after, a' ≠ a := fun a' ha' heq =>
    (List.nodup_cons.mp hnot).1 (heq ▸ ha')
  rw [List.flatMap_append, List.flatMap_cons, List.filter_append, List.filter_append,
    hnone before fun a' ha' => ⟨by simp [ha'], hne a' (by simp [ha'])⟩,
    hnone after fun a' ha' => ⟨by simp [ha'], hne a' (by simp [ha'])⟩,
    List.filter_eq_self.mpr hfits, List.nil_append, List.append_nil]

/-! ### Classes of files -/

namespace Target

variable [Schema.Compiler] {t : Target} {registry : Registry} {files : List Path} {f g : Path}

/-- The clean files that go where a file goes, which is one of them if it is clean. -/
def rivals (t : Target) (registry : Registry) (files : List Path) (f : Path) : List Path :=
  (t.clean registry files).filter fun g =>
    (t.outputFor registry g).path.same (t.outputFor registry f).path

/-- No other clean file goes where the file goes. -/
def IsAlone (t : Target) (registry : Registry) (files : List Path) (f : Path) : Prop :=
  ∀ g ∈ files, t.IsClean registry g →
    (t.outputFor registry g).path.same (t.outputFor registry f).path = true → g = f

theorem mem_clean : f ∈ t.clean registry files ↔ f ∈ files ∧ t.IsClean registry f := by
  rw [clean, List.mem_filter, decide_eq_true_iff]

/-- A fault of a file names the file, and no output path. -/
theorem of_mem_faultErrors {e : UnitError} (he : e ∈ t.faultErrors registry f) :
    e.target = t.id ∧ e.source = some f ∧ e.output? = none := by
  obtain ⟨fault, hfault, rfl⟩ := List.mem_map.mp he
  obtain ⟨step, -, hstep⟩ := List.mem_filterMap.mp hfault
  refine ⟨rfl, rfl, ?_⟩
  unfold Registry.fault? at hstep
  split at hstep
  · obtain rfl := Option.some_inj.mp hstep
    rfl
  · split at hstep
    · simp at hstep
    · obtain rfl := Option.some_inj.mp hstep
      rfl

theorem mem_rivals_self (hf : f ∈ t.clean registry files) : f ∈ t.rivals registry files f :=
  List.mem_filter.mpr ⟨hf, Path.same_refl _⟩

/-- A clean file is alone if it has no rival but itself. -/
theorem rivals_eq_singleton_iff (hfiles : files.Nodup) (hf : f ∈ t.clean registry files) :
    t.rivals registry files f = [f] ↔ t.IsAlone registry files f := by
  constructor
  · intro h g hg hclean hsame
    rw [← List.mem_singleton, ← h]
    exact List.mem_filter.mpr ⟨mem_clean.mpr ⟨hg, hclean⟩, hsame⟩
  · intro h
    refine filter_eq_singleton (hfiles.filter _) hf (Path.same_refl _) fun g hg hsame => ?_
    exact h g (mem_clean.mp hg).1 (mem_clean.mp hg).2 hsame

end Target

/-- How a plan accounts for a file. -/
inductive FileClass where
  /-- The file becomes a unit. -/
  | planned
  /-- Something is wrong with the chain of the file. -/
  | faulty
  /-- Other files go to the same place. -/
  | colliding

namespace Plan

/-- The units of a target whose source is shown by a path. -/
def unitsOf (plan : Plan) (i : Nat) (f : Path) : List PlannedUnit :=
  plan.units.filter fun u => u.targetIndex = i ∧ (plan.sourceOf u).relative = f

/-- The errors of a target that name a source. -/
def errorsOf (plan : Plan) (target : String) (f : Path) : List UnitError :=
  plan.errors.filter fun e => e.target = target ∧ e.source = some f

/-- The errors of a target that name an output path. -/
def collisionsAt (plan : Plan) (target : String) (output : Path) : List UnitError :=
  plan.errors.filter fun e => e.target = target ∧ e.output?.any (·.same output) = true

/-- A file of a target is in a class, and the plan has what belongs to it: one unit, all the faults
of its chain, or one error that names the files that collide, in ascending order. -/
def HasClass [Schema.Compiler] (plan : Plan) (registry : Registry) (t : Target) (i : Nat)
    (files : List Path) (f : Path) : FileClass → Prop
  | .planned => t.IsClean registry f ∧ t.IsAlone registry files f ∧
      ∃ u, plan.unitsOf i f = [u] ∧ t.IsUnitFor registry i plan.sources f u
  | .faulty => ¬t.IsClean registry f ∧ plan.unitsOf i f = [] ∧
      plan.errorsOf t.id f = t.faultErrors registry f
  | .colliding => t.IsClean registry f ∧ ¬t.IsAlone registry files f ∧ plan.unitsOf i f = [] ∧
      (t.rivals registry files f).Pairwise (fun p q => p.compare q = .lt) ∧
      ∃ path, path.same (t.outputFor registry f).path = true ∧
        plan.collisionsAt t.id (t.outputFor registry f).path =
          [⟨t.id, none, .outputCollision path (t.rivals registry files f)⟩]

end Plan

namespace Planner

variable {registry : Registry} {t : Target} {i : Nat} {files : List Path} {plan : Plan}
  {candidates : List PlannedUnit} {shown : PlannedUnit → Path} {f : Path} {g : OutputGroup}
  {u : PlannedUnit} {e : UnitError}

/-- Groups that hold units with the same path are one. -/
theorem Ascending.eq_of_same {gs : List OutputGroup} {g g' : OutputGroup} (h : Ascending gs)
    (hg : g ∈ gs) (hg' : g' ∈ gs) (hsame : g.path.same g'.path = true) : g = g' := by
  obtain ⟨k, hk⟩ := List.mem_iff_getElem?.mp hg
  obtain ⟨k', hk'⟩ := List.mem_iff_getElem?.mp hg'
  have hlt : ∀ {g g' : OutputGroup}, g.path.same g'.path = true → ¬g.path.compare g'.path = .lt :=
    fun hsame => by simp [Path.compare_eq_iff.mpr hsame]
  obtain rfl := index_eq_of_pairwise h hk hk' (hlt hsame) (hlt (Path.same_comm ▸ hsame))
  exact Option.some_inj.mp (hk.symm.trans hk')

/-- The groups that are no units leave different errors. -/
theorem nodup_collisions (target : String) (shown : PlannedUnit → Path)
    (candidates : List PlannedUnit) :
    ((groups candidates).filterMap (OutputGroup.collision? target shown)).Nodup := by
  rw [List.Nodup, List.pairwise_filterMap]
  refine (gathered_groups candidates).ascending.imp fun hlt e he e' he' heq => ?_
  rw [(OutputGroup.collision?_eq_some_iff.mp he).2,
    (OutputGroup.collision?_eq_some_iff.mp he').2] at heq
  simp only [UnitError.mk.injEq, BuildError.outputCollision.injEq, true_and] at heq
  rw [heq.1, Path.compare_eq_iff.mpr (Path.same_refl _)] at hlt
  simp at hlt

/-! ### Groups and files -/

namespace Records

variable [Schema.Compiler]

/-- A group holds the candidates for the clean files that go to its path. -/
theorem map_units (h : Records registry t i files plan candidates shown)
    (hg : g ∈ groups candidates) (hsame : (t.outputFor registry f).path.same g.path = true) :
    g.units.map shown = t.rivals registry files f := by
  rw [(partitions_groups candidates).units_eq g hg, Target.rivals, ← h.clean, List.filter_map]
  refine congrArg (List.map shown) (List.filter_congr fun u hu => ?_)
  rw [Function.comp_apply, (h.planned u hu).outputPath, Bool.eq_iff_iff, Path.same_iff,
    Path.same_iff, Path.same_iff.mp hsame]

/-- Every clean file has a group. -/
theorem exists_group (h : Records registry t i files plan candidates shown)
    (hf : f ∈ t.clean registry files) : ∃ g ∈ groups candidates,
      (t.outputFor registry f).path.same g.path = true ∧
        g.units.map shown = t.rivals registry files f := by
  rw [← h.clean] at hf
  obtain ⟨u, hu, rfl⟩ := List.mem_map.mp hf
  obtain ⟨g, hg, hsame⟩ := (partitions_groups candidates).cover u hu
  rw [(h.planned u hu).outputPath] at hsame
  exact ⟨g, hg, hsame, h.map_units hg hsame⟩

/-- A candidate of a group was made from a clean file that goes to the path of the group. -/
theorem of_mem_units (h : Records registry t i files plan candidates shown)
    (hg : g ∈ groups candidates) (hu : u ∈ g.units) : shown u ∈ t.clean registry files ∧
      (t.outputFor registry (shown u)).path.same g.path = true := by
  have hmem := (gathered_groups candidates).mem g hg u hu
  refine ⟨h.clean ▸ List.mem_map_of_mem hmem, ?_⟩
  rw [← (h.planned u hmem).outputPath]
  exact (gathered_groups candidates).uniform g hg u hu

/-- Every group comes from clean files that go to its path. -/
theorem exists_file (h : Records registry t i files plan candidates shown)
    (hg : g ∈ groups candidates) : ∃ f ∈ t.clean registry files,
      (t.outputFor registry f).path.same g.path = true ∧
        g.units.map shown = t.rivals registry files f := by
  obtain ⟨u, hu⟩ := List.exists_mem_of_ne_nil _ ((partitions_groups candidates).nonempty g hg)
  obtain ⟨hclean, hsame⟩ := h.of_mem_units hg hu
  exact ⟨shown u, hclean, hsame, h.map_units hg hsame⟩

/-! ### Units -/

/-- A settled unit was made from a clean file that is alone. -/
theorem of_mem_settled (h : Records registry t i files plan candidates shown)
    (hu : u ∈ settled (groups candidates)) : u ∈ candidates ∧
      shown u ∈ t.clean registry files ∧ t.rivals registry files (shown u) = [shown u] := by
  obtain ⟨g, hg, hgu⟩ := List.mem_filterMap.mp hu
  have hmem := OutputGroup.mem_of_unit? hgu
  obtain ⟨hclean, hsame⟩ := h.of_mem_units hg hmem
  refine ⟨(gathered_groups candidates).mem g hg u hmem, hclean, ?_⟩
  rw [← h.map_units hg hsame, OutputGroup.unit?_eq_some_iff.mp hgu, List.map_singleton]

variable (hshown : ∀ u ∈ candidates, (plan.sourceOf u).relative = shown u)

include hshown

/-- The units for a file are the settled ones that are shown by it. -/
theorem unitsOf_eq (h : Records registry t i files plan candidates shown) :
    plan.unitsOf i f = (settled (groups candidates)).filter (shown · = f) := by
  rw [← h.units, List.filter_filter, Plan.unitsOf]
  refine List.filter_congr fun u hu => ?_
  by_cases hindex : u.targetIndex = i
  · have hsettled : u ∈ settled (groups candidates) := by
      rw [← h.units]
      exact List.mem_filter.mpr ⟨hu, by simpa using hindex⟩
    simp [hindex, hshown u (h.of_mem_settled hsettled).1]
  · simp [hindex]

/-- A clean file that is alone is the source of one unit. -/
theorem exists_unitsOf_eq (h : Records registry t i files plan candidates shown)
    (hfiles : files.Nodup) (hf : f ∈ t.clean registry files)
    (halone : t.rivals registry files f = [f]) :
    ∃ u, plan.unitsOf i f = [u] ∧ t.IsUnitFor registry i plan.sources f u := by
  obtain ⟨g, hg, -, hunits⟩ := h.exists_group hf
  rw [halone] at hunits
  obtain ⟨u, hgu, rfl⟩ := List.map_eq_singleton_iff.mp hunits
  have hu : u ∈ settled (groups candidates) :=
    List.mem_filterMap.mpr ⟨g, hg, OutputGroup.unit?_eq_some_iff.mpr hgu⟩
  have hmem := (h.of_mem_settled hu).1
  refine ⟨u, ?_, h.planned u hmem⟩
  rw [h.unitsOf_eq hshown]
  -- the files tell the candidates apart
  have hnodup : (candidates.map shown).Nodup := by
    rw [h.clean]
    exact hfiles.filter _
  refine filter_eq_singleton ?_ hu (by simp) fun v hv hvu => ?_
  · refine (gathered_groups candidates).ascending_settled.imp fun hlt heq => ?_
    rw [heq, Path.compare_eq_iff.mpr (Path.same_refl _)] at hlt
    simp at hlt
  · exact List.inj_on_of_nodup_map hnodup (h.of_mem_settled hv).1 hmem (by simpa using hvu)

/-- No other file is the source of a unit. -/
theorem unitsOf_eq_nil (h : Records registry t i files plan candidates shown)
    (hf : ¬(f ∈ t.clean registry files ∧ t.rivals registry files f = [f])) :
    plan.unitsOf i f = [] := by
  rw [h.unitsOf_eq hshown, List.filter_eq_nil_iff]
  intro u hu huf
  obtain rfl : shown u = f := by simpa using huf
  exact hf (h.of_mem_settled hu).2

omit hshown

/-! ### Errors -/

/-- The errors for a file are all faults of its chain. -/
theorem errorsOf_eq (h : Records registry t i files plan candidates shown)
    (hfiles : files.Nodup) (hf : f ∈ files) :
    plan.errorsOf t.id f = t.faultErrors registry f := by
  have hreported : plan.errorsOf t.id f =
      (reported registry t files candidates shown).filter (·.source = some f) := by
    rw [← h.errors, List.filter_filter, Plan.errorsOf]
    exact List.filter_congr fun e _ => by simp [Bool.and_comm]
  have hcollisions : ((groups candidates).filterMap (OutputGroup.collision? t.id shown)).filter
      (·.source = some f) = [] := by
    refine List.filter_eq_nil_iff.mpr fun e he => ?_
    obtain ⟨g, -, hcollision⟩ := List.mem_filterMap.mp he
    rw [(OutputGroup.collision?_eq_some_iff.mp hcollision).2]
    simp
  rw [hreported, reported, List.filter_append, hcollisions, List.append_nil]
  refine filter_flatMap_eq hfiles hf (fun e he => ?_) fun g hg hne e he => ?_
  · simpa using (Target.of_mem_faultErrors he).2.1
  · simpa [(Target.of_mem_faultErrors he).2.1] using hne

/-- Clean files that go to the same place are named by one error. -/
theorem exists_collisionsAt_eq (h : Records registry t i files plan candidates shown)
    (hf : f ∈ t.clean registry files) (hshared : t.rivals registry files f ≠ [f]) :
    ∃ path, path.same (t.outputFor registry f).path = true ∧
      plan.collisionsAt t.id (t.outputFor registry f).path =
        [⟨t.id, none, .outputCollision path (t.rivals registry files f)⟩] := by
  obtain ⟨g, hg, hsame, hunits⟩ := h.exists_group hf
  -- the units of the group come from the rivals, of which there are several
  have hseveral : ∀ u, g.units ≠ [u] := by
    intro u hu
    rw [hu, List.map_singleton] at hunits
    have hself := Target.mem_rivals_self hf
    rw [← hunits, List.mem_singleton] at hself
    exact hshared (by rw [← hunits, hself])
  have hreported : plan.collisionsAt t.id (t.outputFor registry f).path =
      (reported registry t files candidates shown).filter fun e =>
        e.output?.any (·.same (t.outputFor registry f).path) := by
    rw [← h.errors, List.filter_filter, Plan.collisionsAt]
    exact List.filter_congr fun e _ => by simp [Bool.and_comm]
  -- faults of files name no output
  have hfaults : (files.flatMap (t.faultErrors registry)).filter
      (fun e => e.output?.any (·.same (t.outputFor registry f).path)) = [] := by
    refine List.filter_eq_nil_iff.mpr fun e he => ?_
    obtain ⟨g, -, he⟩ := List.mem_flatMap.mp he
    simp [(Target.of_mem_faultErrors he).2.2]
  have hpath : g.path.same (t.outputFor registry f).path = true := Path.same_comm ▸ hsame
  refine ⟨g.path, hpath, ?_⟩
  rw [hreported, reported, List.filter_append, hfaults, List.nil_append, ← hunits]
  refine filter_eq_singleton (nodup_collisions t.id shown candidates) ?_ ?_ fun e he hsame' => ?_
  · exact List.mem_filterMap.mpr ⟨g, hg, OutputGroup.collision?_eq_some_iff.mpr ⟨hseveral, rfl⟩⟩
  · exact hpath
  · obtain ⟨g', hg', he⟩ := List.mem_filterMap.mp he
    obtain ⟨-, rfl⟩ := OutputGroup.collision?_eq_some_iff.mp he
    rw [(gathered_groups candidates).ascending.eq_of_same hg' hg (Path.same_trans hsame' hsame)]

/-- Every error of the target is a fault of a file, or names clean files that collide. -/
theorem of_mem_errors (h : Records registry t i files plan candidates shown)
    (he : e ∈ plan.errors) (htarget : e.target = t.id) :
    (∃ f ∈ files, ¬t.IsClean registry f ∧ e ∈ plan.errorsOf t.id f) ∨
      ∃ f ∈ t.clean registry files, t.rivals registry files f ≠ [f] ∧
        e ∈ plan.collisionsAt t.id (t.outputFor registry f).path := by
  have hreported : e ∈ reported registry t files candidates shown := by
    rw [← h.errors]
    exact List.mem_filter.mpr ⟨he, by simpa using htarget⟩
  rcases List.mem_append.mp hreported with hfault | hcollision
  · obtain ⟨f, hf, hfault⟩ := List.mem_flatMap.mp hfault
    refine Or.inl ⟨f, hf, fun hclean => ?_, ?_⟩
    · rw [Target.faultErrors, Target.faults_eq_nil_iff.mpr hclean] at hfault
      simp at hfault
    · exact List.mem_filter.mpr ⟨he, by simp [htarget, (Target.of_mem_faultErrors hfault).2.1]⟩
  · obtain ⟨g, hg, hcollision⟩ := List.mem_filterMap.mp hcollision
    obtain ⟨hseveral, rfl⟩ := OutputGroup.collision?_eq_some_iff.mp hcollision
    obtain ⟨f, hf, hsame, hunits⟩ := h.exists_file hg
    refine Or.inr ⟨f, hf, fun halone => ?_, List.mem_filter.mpr ⟨he, ?_⟩⟩
    · rw [halone] at hunits
      obtain ⟨u, hu, -⟩ := List.map_eq_singleton_iff.mp hunits
      exact hseveral u hu
    · simpa [UnitError.output?] using Path.same_comm ▸ hsame

/-! ### Every file is in one class -/

include hshown

theorem hasClass_planned (h : Records registry t i files plan candidates shown)
    (hfiles : files.Nodup) (hf : f ∈ t.clean registry files)
    (halone : t.rivals registry files f = [f]) :
    plan.HasClass registry t i files f .planned :=
  ⟨(Target.mem_clean.mp hf).2, (Target.rivals_eq_singleton_iff hfiles hf).mp halone,
    h.exists_unitsOf_eq hshown hfiles hf halone⟩

theorem hasClass_faulty (h : Records registry t i files plan candidates shown)
    (hfiles : files.Nodup) (hf : f ∈ files) (hfaulty : ¬t.IsClean registry f) :
    plan.HasClass registry t i files f .faulty :=
  ⟨hfaulty, h.unitsOf_eq_nil hshown fun hclean => hfaulty (Target.mem_clean.mp hclean.1).2,
    h.errorsOf_eq hfiles hf⟩

theorem hasClass_colliding (h : Records registry t i files plan candidates shown)
    (hascending : files.Pairwise fun p q => p.compare q = .lt) (hfiles : files.Nodup)
    (hf : f ∈ t.clean registry files) (hshared : t.rivals registry files f ≠ [f]) :
    plan.HasClass registry t i files f .colliding :=
  ⟨(Target.mem_clean.mp hf).2, mt (Target.rivals_eq_singleton_iff hfiles hf).mpr hshared,
    h.unitsOf_eq_nil hshown fun halone => hshared halone.2, (hascending.filter _).filter _,
    h.exists_collisionsAt_eq hf hshared⟩

/-- Every file is in exactly one class. -/
theorem existsUnique_hasClass (h : Records registry t i files plan candidates shown)
    (hascending : files.Pairwise fun p q => p.compare q = .lt) (hfiles : files.Nodup)
    (hf : f ∈ files) : ∃! c, plan.HasClass registry t i files f c := by
  by_cases hclean : t.IsClean registry f
  · have hmem := Target.mem_clean.mpr ⟨hf, hclean⟩
    by_cases halone : t.rivals registry files f = [f]
    · refine ⟨.planned, h.hasClass_planned hshown hfiles hmem halone, fun c hc => ?_⟩
      cases c with
      | planned => rfl
      | faulty => exact absurd hclean hc.1
      | colliding =>
        exact absurd ((Target.rivals_eq_singleton_iff hfiles hmem).mp halone) hc.2.1
    · refine ⟨.colliding, h.hasClass_colliding hshown hascending hfiles hmem halone,
        fun c hc => ?_⟩
      cases c with
      | planned => exact absurd ((Target.rivals_eq_singleton_iff hfiles hmem).mpr hc.2.1) halone
      | faulty => exact absurd hclean hc.1
      | colliding => rfl
  · refine ⟨.faulty, h.hasClass_faulty hshown hfiles hf hclean, fun c hc => ?_⟩
    cases c with
    | planned => exact absurd hc.1 hclean
    | faulty => rfl
    | colliding => exact absurd hc.1 hclean

end Records

end Planner

namespace Project

variable {project : Project} {tree : Tree}

/-- Planning accounts for every file exactly once: it is in one class, and the plan has what belongs
to it. Nothing else is planned or reported for a target that can be planned, and units are in
strictly ascending order. -/
theorem plan_accounts_for_files [Schema.Compiler] (htree : tree.WellFormed)
    (hvalid : project.config.fault? = none) (hjson : project.config.HasJsonOptions)
    (hroots : project.config.HasApartSources) :
    (project.plan tree).units.Pairwise PlannedUnit.Precedes ∧
      ∀ i t files, project.config.targets[i]? = some t →
        t.sourceRoot.startsWith t.outputRoot = false →
        t.enumerate tree project.skip = .ok files →
        (∀ f ∈ files, ∃! c, (project.plan tree).HasClass project.registry t i files f c) ∧
        (∀ u ∈ (project.plan tree).units, u.targetIndex = i → ∃ f ∈ files,
          (project.plan tree).HasClass project.registry t i files f .planned ∧
            u ∈ (project.plan tree).unitsOf i f) ∧
        ∀ e ∈ (project.plan tree).errors, e.target = t.id →
          (∃ f ∈ files, (project.plan tree).HasClass project.registry t i files f .faulty ∧
            e ∈ (project.plan tree).errorsOf t.id f) ∨
          ∃ f ∈ files, (project.plan tree).HasClass project.registry t i files f .colliding ∧
            e ∈ (project.plan tree).collisionsAt t.id (t.outputFor project.registry f).path := by
  obtain ⟨hordered, hrecords⟩ := isAccounted_plan htree hvalid hjson hroots
  refine ⟨hordered, fun i t files ht hcontains hfiles => ?_⟩
  obtain ⟨candidates, shown, h⟩ := hrecords i t files ht hcontains hfiles
  have hascending := Target.ascending_enumerate htree hfiles
  have hnodup : files.Nodup := (Target.pairwise_enumerate htree hfiles).imp fun hapart heq => by
    rw [heq, Path.same_refl] at hapart
    simp at hapart
  have hshown : ∀ u ∈ candidates, ((project.plan tree).sourceOf u).relative = shown u := by
    intro u hu
    obtain ⟨s, hs, hsame⟩ := (h.planned u hu).source
    have hmem : shown u ∈ files :=
      (Target.mem_clean.mp (h.clean ▸ List.mem_map_of_mem hu)).1
    rw [Plan.sourceOf, hs, Option.getD_some]
    exact ((isPlan_plan htree).fresh s (List.mem_of_getElem? hs)).relative_eq htree hroots
      (List.mem_of_getElem? ht) ⟨files, hfiles, hmem⟩ hsame
  refine ⟨fun f hf => h.existsUnique_hasClass hshown hascending hnodup hf, fun u hu hindex => ?_,
    fun e he htarget => ?_⟩
  · have hsettled : u ∈ Planner.settled (Planner.groups candidates) := by
      rw [← h.units]
      exact List.mem_filter.mpr ⟨hu, by simpa using hindex⟩
    obtain ⟨hmem, hclean, halone⟩ := h.of_mem_settled hsettled
    refine ⟨shown u, (Target.mem_clean.mp hclean).1,
      h.hasClass_planned hshown hnodup hclean halone, List.mem_filter.mpr ⟨hu, ?_⟩⟩
    simp [hindex, hshown u hmem]
  · rcases h.of_mem_errors he htarget with ⟨f, hf, hfaulty, he⟩ | ⟨f, hf, hshared, he⟩
    · exact Or.inl ⟨f, hf, h.hasClass_faulty hshown hnodup hf hfaulty, he⟩
    · exact Or.inr ⟨f, (Target.mem_clean.mp hf).1,
        h.hasClass_colliding hshown hascending hnodup hf hshared, he⟩

/-- A transformer that gives files another extension. -/
def compile : Transformer :=
  (Transformer.new "compile" fun _ => .ok fun text => .ok text).withExtensionRemap "ts" "js"

/-- A target that compiles some files, and whose chain for others has two faults. -/
def compiled : Target :=
  ((Target.new "esm" ⟨"/src"⟩ ⟨"/dist"⟩).withChain "ts" [.bare "compile"]).withChain "md"
    [.bare "render", .configured "compile" [("strict", .bool true)]]

/-- A target that copies all files, and one that compiles some of the same files. -/
def copiedAndCompiled : Project :=
  ⟨⟨none, [Target.new "copy" ⟨"/src"⟩ ⟨"/copy"⟩, compiled]⟩, ⟨[("compile", compile)]⟩, 1⟩

/-- A tree with two files for one place, one for another, and one that cannot be compiled. -/
def fourFileTree : Tree :=
  ⟨[(["src"], .directory), (["src", "a.js"], .file ⟨#[65]⟩), (["src", "a.ts"], .file ⟨#[66]⟩),
    (["src", "b.ts"], .file ⟨#[67]⟩), (["src", "c.md"], .file ⟨#[68]⟩)], []⟩

theorem copiedAndCompiled_hasApartSources : copiedAndCompiled.config.HasApartSources := by
  simp [BuildConfig.HasApartSources, copiedAndCompiled, compiled, Target.new, Target.withChain,
    Path.not_isInside_self]

theorem copiedAndCompiled_enumerate : compiled.enumerate fourFileTree copiedAndCompiled.skip =
    .ok [⟨"a.js"⟩, ⟨"a.ts"⟩, ⟨"b.ts"⟩, ⟨"c.md"⟩] := by
  have hroot : fourFileTree.resolve compiled.sourceRoot = .ok ["src"] := by decide +kernel
  exact Target.enumerate_of_pairwise hroot (by decide +kernel) rfl (by decide +kernel)
    (by decide +kernel)

theorem copiedAndCompiled_accounts_for_files :
    ([⟨"a.js"⟩, ⟨"a.ts"⟩, ⟨"b.ts"⟩, ⟨"c.md"⟩] : List Path).map (fun f =>
      ((compiled.faults copiedAndCompiled.registry f).length,
        (compiled.rivals copiedAndCompiled.registry
          [⟨"a.js"⟩, ⟨"a.ts"⟩, ⟨"b.ts"⟩, ⟨"c.md"⟩] f).length)) =
      [(0, 2), (0, 2), (0, 1), (2, 0)] ∧
    ∀ f ∈ ([⟨"a.js"⟩, ⟨"a.ts"⟩, ⟨"b.ts"⟩, ⟨"c.md"⟩] : List Path),
      ∃! c, (copiedAndCompiled.plan fourFileTree).HasClass copiedAndCompiled.registry compiled 1
        [⟨"a.js"⟩, ⟨"a.ts"⟩, ⟨"b.ts"⟩, ⟨"c.md"⟩] f c :=
  ⟨by decide +kernel,
    ((plan_accounts_for_files (by decide +kernel) (by decide +kernel) (by decide +kernel)
      copiedAndCompiled_hasApartSources).2 1 compiled _ rfl (by decide +kernel)
      copiedAndCompiled_enumerate).1⟩

end Project

end Filewise
