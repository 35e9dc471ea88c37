import Filewise.Proofs.Plan.Destination
import Filewise.Proofs.Pool.Undisturbed

/-!
# Plans that keep their units apart

If the roots of a project are plain and lie apart, and none of its outputs lies below
another one, then the jobs of its plan keep apart, as long as output paths are made of
names. Units of one target can then be told apart by the sources that are shown for them.

## Main definitions

* `Path.IsNamed`: a path that is made of names.
* `Project.IsSeparated`: roots and outputs lie apart.

## Main results

* `Project.IsSeparated.exists_jobs`: the units of a separated project are jobs that keep
  apart.
* `Project.IsSeparated.pairwise_source`: units of one target are shown with different
  sources.
-/

namespace Filewise

/-! ### Valid configurations -/

/-- The targets of a configuration without faults have different ids. -/
theorem BuildConfig.nodup_of_targetFault? {seen : List String} {targets : List Target}
    (h : targetFault? seen targets = none) :
    (targets.map Target.id).Nodup ∧ ∀ t ∈ targets, t.id ∉ seen := by
  induction targets generalizing seen with
  | nil => simp
  | cons t rest ih =>
    unfold targetFault? at h
    split_ifs at h with _ hseen
    obtain ⟨hnodup, hfresh⟩ := ih h
    refine ⟨?_, ?_⟩
    · rw [List.map_cons, List.nodup_cons]
      refine ⟨fun hmem => ?_, hnodup⟩
      obtain ⟨t', ht', heq⟩ := List.mem_map.mp hmem
      exact hfresh t' ht' (heq ▸ List.mem_cons_self)
    · intro t' ht' hmem
      rcases List.mem_cons.mp ht' with rfl | ht'
      · exact hseen (List.contains_iff_mem.mpr hmem)
      · exact hfresh t' ht' (List.mem_cons_of_mem _ hmem)

theorem BuildConfig.nodup_of_fault? {c : BuildConfig} (h : c.fault? = none) :
    (c.targets.map Target.id).Nodup := by
  cases hfault : targetFault? [] c.targets with
  | none => exact (nodup_of_targetFault? hfault).1
  | some fault =>
    unfold fault? at h
    rw [hfault] at h
    split_ifs at h

/-- The targets of a valid configuration are told apart by their ids. -/
theorem BuildConfig.index_eq_of_id {c : BuildConfig} {t t' : Target} {i j : Nat}
    (h : c.fault? = none) (ht : c.targets[i]? = some t) (ht' : c.targets[j]? = some t')
    (hid : t.id = t'.id) : i = j := by
  have hlt : i < (c.targets.map Target.id).length := by
    rw [List.length_map]
    exact (List.getElem?_eq_some_iff.mp ht).1
  refine (List.getElem?_inj hlt (nodup_of_fault? h)).mp ?_
  rw [List.getElem?_map, List.getElem?_map, ht, ht', Option.map_some, Option.map_some, hid]

/-! ### Separated projects -/

/-- The path is made of names, without dots. -/
def Path.IsNamed (p : Path) : Prop := ¬p.HasUp ∧ Component.here ∉ p.components

instance (p : Path) : Decidable p.IsNamed := inferInstanceAs (Decidable (_ ∧ _))

theorem Path.IsNamed.filter_here {p : Path} (h : p.IsNamed) :
    p.components.filter (· ≠ .here) = p.components :=
  List.filter_eq_self.mpr fun c hc => by
    have hne : c ≠ .here := fun hhere => h.2 (hhere ▸ hc)
    simpa using hne

namespace Project

variable [Schema.Compiler]

/-- The configuration is valid and all roots are plain; no output root lies at or above a source
root or the output root of another target; source roots are the same or unrelated; and no output
of a target lies below another one. -/
structure IsSeparated (project : Project) (tree : Tree) : Prop where
  valid : project.config.fault? = none
  wellFormed : tree.WellFormed
  plain : ∀ t ∈ project.config.targets, t.sourceRoot.IsPlain ∧ t.outputRoot.IsPlain
  outside : ∀ t ∈ project.config.targets, ∀ t' ∈ project.config.targets,
    t'.sourceRoot.startsWith t.outputRoot = false
  outputs : project.config.targets.Pairwise fun t t' => t.outputRoot.Unrelated t'.outputRoot
  sources : ∀ t ∈ project.config.targets, ∀ t' ∈ project.config.targets,
    t.sourceRoot.same t'.sourceRoot = true ∨ t.sourceRoot.Unrelated t'.sourceRoot
  nested : ∀ u ∈ (project.plan tree).units, ∀ v ∈ (project.plan tree).units,
    u.targetIndex = v.targetIndex → v.outputPath.startsWith u.outputPath = true →
      u.outputPath.same v.outputPath = true

variable {project : Project} {tree : Tree} {u v : PlannedUnit} {t t' : Target} {j k : Job}

namespace IsSeparated

/-- Units of targets with the same id are units of one target. -/
theorem targetIndex_eq (h : project.IsSeparated tree)
    (ht : project.config.targets[u.targetIndex]? = some t)
    (ht' : project.config.targets[v.targetIndex]? = some t') (hid : t.id = t'.id) :
    u.targetIndex = v.targetIndex :=
  BuildConfig.index_eq_of_id h.valid ht ht' hid

/-- The output roots of different targets are unrelated. -/
theorem unrelated (h : project.IsSeparated tree)
    (ht : project.config.targets[u.targetIndex]? = some t)
    (ht' : project.config.targets[v.targetIndex]? = some t') (hne : u.targetIndex ≠ v.targetIndex) :
    t.outputRoot.Unrelated t'.outputRoot := by
  obtain ⟨hu, rfl⟩ := List.getElem?_eq_some_iff.mp ht
  obtain ⟨hv, rfl⟩ := List.getElem?_eq_some_iff.mp ht'
  have hpairs := List.pairwise_iff_getElem.mp h.outputs
  rcases Nat.lt_or_gt_of_ne hne with hlt | hlt
  · exact hpairs _ _ hu hv hlt
  · exact (hpairs _ _ hv hu hlt).symm

/-- The unit of a plan is a job, whose source is there. -/
theorem exists_job (h : project.IsSeparated tree) (hu : u ∈ (project.plan tree).units)
    (hnamed : u.outputPath.IsNamed) :
    ∃ j : Job, j.unit = u ∧ j.Fits project.config (project.plan tree).sources ∧
      (tree.find? j.readAt).isSome = true := by
  have hplan := project.isPlan_plan h.wellFormed
  obtain ⟨t, relative, hplanned⟩ := hplan.planned u hu
  have hmem := List.mem_of_getElem? hplanned.target?
  obtain ⟨hsource, houtput⟩ := h.plain t hmem
  have hisOutput := hplanned.isOutput h.wellFormed
  obtain ⟨above, names, s, hs, henumerated, habove, habsolute⟩ :=
    hplanned.exists_source_names h.wellFormed hsource
  obtain ⟨root, outputNames, hroot, houtputNames, hdestination⟩ :=
    houtput.exists_names_join hisOutput.relative hnamed.1
  have hne : outputNames ≠ [] := by
    rintro rfl
    rw [hnamed.filter_here] at houtputNames
    exact hisOutput.nonempty houtputNames
  -- an output path has a name, so that there is a directory above the destination
  obtain ⟨directory, name, rfl⟩ : ∃ directory name, outputNames = directory ++ [name] :=
    ⟨_, _, (List.dropLast_append_getLast hne).symm⟩
  refine ⟨⟨u, t, s, root ++ directory, name, above ++ names⟩, rfl,
    ⟨hplanned.target?, hplanned.target, hs, ?_, ?_, habsolute⟩, ?_⟩
  · exact (hplan.fresh s (List.mem_of_getElem? hs)).1
  · rw [Job.destination, List.append_assoc]
    exact hdestination
  · obtain ⟨place, content, hresolve, hfile⟩ := henumerated.exists_file
    obtain rfl : place = above := by
      rw [Tree.eq_location_of_resolve hsource.1 hresolve, Path.location_eq habove]
    rw [hfile]
    rfl

/-- No job of a plan goes to a place at or above the destination of another one. -/
theorem not_prefix (h : project.IsSeparated tree)
    (hj : j.Fits project.config (project.plan tree).sources)
    (hk : k.Fits project.config (project.plan tree).sources)
    (hjunit : j.unit ∈ (project.plan tree).units) (hkunit : k.unit ∈ (project.plan tree).units)
    (hjnamed : j.unit.outputPath.IsNamed) (hknamed : k.unit.outputPath.IsNamed)
    (hapart : j.unit.targetIndex = k.unit.targetIndex →
      j.unit.outputPath.same k.unit.outputPath = false) : ¬j.destination <+: k.destination := by
  have hplan := project.isPlan_plan h.wellFormed
  obtain ⟨_, _, hjplanned⟩ := hplan.planned _ hjunit
  obtain ⟨_, _, hkplanned⟩ := hplan.planned _ hkunit
  have hjroot := (h.plain _ (List.mem_of_getElem? hj.target?)).2.1
  have hkroot := (h.plain _ (List.mem_of_getElem? hk.target?)).2.1
  have hjcomponents := components_destinationIn hjroot (hjplanned.isOutput h.wellFormed).relative
  have hkcomponents := components_destinationIn hkroot (hkplanned.isOutput h.wellFormed).relative
  rw [hjnamed.filter_here] at hjcomponents
  rw [hknamed.filter_here] at hkcomponents
  intro hpre
  have hpre : (j.unit.destinationIn j.target).components <+:
      (k.unit.destinationIn k.target).components :=
    Path.startsWith_iff.mp ((Path.startsWith_iff_of_names hk.destination hj.destination).mpr hpre)
  rw [hjcomponents, hkcomponents] at hpre
  -- below one output root the output paths decide, else the output roots
  by_cases hindex : j.unit.targetIndex = k.unit.targetIndex
  · have htarget : j.target = k.target :=
      Option.some_inj.mp (by rw [← hj.target?, ← hk.target?, hindex])
    rw [htarget, List.prefix_append_right_inj] at hpre
    have hsame := h.nested _ hjunit _ hkunit hindex (Path.startsWith_iff.mpr hpre)
    rw [hapart hindex] at hsame
    simp at hsame
  · exact Path.not_unrelated_of_prefix ((List.prefix_append _ _).trans hpre)
      (List.prefix_append _ _) (h.unrelated hj.target? hk.target? hindex)

/-- No job of a plan goes to a place at or above one where something is read. -/
theorem harmless (h : project.IsSeparated tree)
    (hj : j.Fits project.config (project.plan tree).sources)
    (hk : k.Fits project.config (project.plan tree).sources)
    (hjunit : j.unit ∈ (project.plan tree).units) (hkunit : k.unit ∈ (project.plan tree).units)
    (hjnamed : j.unit.outputPath.IsNamed) : ¬j.destination <+: k.readAt := by
  have hplan := project.isPlan_plan h.wellFormed
  obtain ⟨destination, source, s, hs, hdestination, hsource, hnot⟩ :=
    hplan.not_destination_prefix_source h.wellFormed h.plain hjunit hkunit hjnamed.1 hj.target?
      hk.target? fun _ => h.outside _ (List.mem_of_getElem? hj.target?) _
        (List.mem_of_getElem? hk.target?)
  obtain rfl := Option.some_inj.mp (hs.symm.trans hk.source)
  have hjlocation := (Path.location_eq hj.destination).symm.trans (Path.location_eq hdestination)
  have hklocation := (Path.location_eq hk.readAt).symm.trans (Path.location_eq hsource)
  rwa [hjlocation, hklocation]

/-- Units of a separated project belong to jobs of which the sources are there. -/
theorem exists_map_unit_eq (h : project.IsSeparated tree)
    (hnamed : ∀ u ∈ (project.plan tree).units, u.outputPath.IsNamed) {units : List PlannedUnit}
    (hunits : units ⊆ (project.plan tree).units) :
    ∃ jobs : List Job, units = jobs.map Job.unit ∧ ∀ j ∈ jobs,
      j.Fits project.config (project.plan tree).sources ∧ (tree.find? j.readAt).isSome = true := by
  induction units with
  | nil => exact ⟨[], rfl, by simp⟩
  | cons u rest ih =>
    have hu := hunits List.mem_cons_self
    obtain ⟨j, rfl, hj⟩ := h.exists_job hu (hnamed u hu)
    obtain ⟨jobs, rfl, hjobs⟩ := ih fun v hv => hunits (List.mem_cons_of_mem _ hv)
    refine ⟨j :: jobs, rfl, fun k hk => ?_⟩
    rcases List.mem_cons.mp hk with rfl | hk
    · exact hj
    · exact hjobs k hk

/-- The units of a separated project are jobs that keep apart. -/
theorem exists_jobs (h : project.IsSeparated tree)
    (hnamed : ∀ u ∈ (project.plan tree).units, u.outputPath.IsNamed) (workers : Nat) :
    ∃ jobs, AreJobs project.config (project.plan tree).units
      (Pool.start workers (project.plan tree) tree).shared jobs := by
  have hplan := project.isPlan_plan h.wellFormed
  obtain ⟨jobs, hunits, hjobs⟩ := h.exists_map_unit_eq hnamed (List.Subset.refl _)
  have hmem : ∀ j ∈ jobs, j.unit ∈ (project.plan tree).units := by
    intro j hj
    rw [hunits]
    exact List.mem_map_of_mem hj
  have hapart := hplan.apart
  rw [hunits, List.pairwise_map] at hapart
  refine ⟨jobs, hunits, fun j hj => (hjobs j hj).1, h.wellFormed.toClosed,
    fun j hj => (hjobs j hj).2, ?_, ?_, fun j hj k hk => ?_⟩
  · refine hapart.imp_of_mem fun {j k} hj hk hpair => ⟨?_, ?_⟩
    · exact h.not_prefix (hjobs j hj).1 (hjobs k hk).1 (hmem j hj) (hmem k hk)
        (hnamed _ (hmem j hj)) (hnamed _ (hmem k hk)) fun hindex => (hpair hindex).2
    · refine h.not_prefix (hjobs k hk).1 (hjobs j hj).1 (hmem k hk) (hmem j hj)
        (hnamed _ (hmem k hk)) (hnamed _ (hmem j hj)) fun hindex => ?_
      rw [Path.same_comm]
      exact (hpair hindex.symm).2
  · apply hapart.imp_of_mem
    intro j k hj hk hpair hid
    exact (hpair (h.targetIndex_eq (hjobs j hj).1.target? (hjobs k hk).1.target? hid)).2
  · exact h.harmless (hjobs j hj).1 (hjobs k hk).1 (hmem j hj) (hmem k hk) (hnamed _ (hmem j hj))

/-- A source of a unit lies below the source root of its target as it is shown, even if another
target has shown it first. -/
theorem components_source (h : project.IsSeparated tree) {sources : List Source} {relative : Path}
    {s : Source} (hplanned : project.PlannedFrom tree sources t relative u)
    (hs : sources[u.source]? = some s) (hfresh : project.IsFreshSource tree s) :
    s.absolute.components = t.sourceRoot.components ++ s.relative.components := by
  obtain ⟨-, t', ht', henumerated, habsolute⟩ := hfresh
  obtain ⟨s', hs', hsame⟩ := hplanned.source
  obtain rfl := Option.some_inj.mp (hs'.symm.trans hs)
  have ht := List.mem_of_getElem? hplanned.target?
  have hshown := henumerated.components_join h.wellFormed t'.sourceRoot
  rw [← habsolute] at hshown
  have hplace := hplanned.enumerated.components_join h.wellFormed t.sourceRoot
  rw [← Path.same_iff.mp hsame] at hplace
  -- the source lies below both source roots, so they are the same
  have hrelated : ¬t.sourceRoot.Unrelated t'.sourceRoot :=
    Path.not_unrelated_of_prefix ⟨_, hplace.symm⟩ ⟨_, hshown.symm⟩
  rw [hshown, Path.same_iff.mp ((h.sources t ht t' ht').resolve_right hrelated)]

/-- Units of one target are shown with different sources. -/
theorem pairwise_source (h : project.IsSeparated tree) :
    (project.plan tree).units.Pairwise fun u v => u.target = v.target →
      ((project.plan tree).sourceOf u).relative.same ((project.plan tree).sourceOf v).relative =
        false := by
  have hplan := project.isPlan_plan h.wellFormed
  apply hplan.apart.imp_of_mem
  intro u v hu hv hapart htarget
  obtain ⟨t, _, hplanned⟩ := hplan.planned u hu
  obtain ⟨t', _, hplanned'⟩ := hplan.planned v hv
  have hid : t.id = t'.id := by rw [← hplanned.target, ← hplanned'.target, htarget]
  have hindex := h.targetIndex_eq hplanned.target? hplanned'.target? hid
  obtain rfl : t = t' :=
    Option.some_inj.mp (by rw [← hplanned.target?, ← hplanned'.target?, hindex])
  obtain ⟨s, hs, -⟩ := hplanned.source
  obtain ⟨s', hs', -⟩ := hplanned'.source
  rw [Plan.sourceOf, Plan.sourceOf, hs, hs', Option.getD_some, Option.getD_some, ← Bool.not_eq_true]
  -- if they were shown alike they would be one file, and that is planned once
  intro hsame
  refine (hapart hindex).1 (hplan.distinct.eq_of_same hs hs' ?_)
  rw [Path.same_iff, h.components_source hplanned hs (hplan.fresh s (List.mem_of_getElem? hs)),
    h.components_source hplanned' hs' (hplan.fresh s' (List.mem_of_getElem? hs')),
    Path.same_iff.mp hsame]

end IsSeparated

end Project

end Filewise
