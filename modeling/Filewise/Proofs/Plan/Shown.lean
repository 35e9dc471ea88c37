import Filewise.Proofs.Plan.Candidates
import Filewise.Proofs.Plan.Destination

/-!
# How sources are shown

Targets share the files that they have in common, and a file that is shared is shown as the
first of them sees it. A later target shows it as it sees it itself exactly if the two source
roots are the same. If no source root lies inside another one, this is always so; else what is
shown for a unit, or for a collision, can be a path that means another file of its target, or
none.

## Main definitions

* `Project.IsSeenBy`: a source is shown as a target sees it.
* `Project.ShownAs`: a file of a target is shown as a target that comes no later sees it.

## Main results

* `Project.ShownAs.eq_iff`: a file is shown as its target sees it exactly if the source roots
  are the same.
* `Project.plan_shows_sources`: how the sources of units and of collisions are shown.
-/

namespace Filewise

namespace Project

variable {project : Project} {tree : Tree} {t t' first : Target} {f g shown : Path} {i : Nat}

/-! ### Shown files -/

/-- The source is a file of the target at a place, and it is shown as this target sees it. -/
structure IsSeenBy (project : Project) (tree : Tree) (k : Nat) (first : Target) (s : Source) :
    Prop where
  target? : project.config.targets[k]? = some first
  enumerated : project.Enumerates tree first s.relative
  absolute : s.absolute = first.sourceRoot.join s.relative

/-- A file of the target at a place is shown as another target sees it, which comes no later. -/
structure ShownAs (project : Project) (tree : Tree) (i : Nat) (t : Target) (f shown : Path)
    (first : Target) : Prop where
  target? : ∃ k ≤ i, project.config.targets[k]? = some first
  enumerated : project.Enumerates tree first shown
  same : (first.sourceRoot.join shown).same (t.sourceRoot.join f) = true

namespace ShownAs

variable (h : project.ShownAs tree i t f shown first) (hf : project.Enumerates tree t f)
  (htree : tree.WellFormed)

include h hf htree

theorem components_eq : first.sourceRoot.components ++ shown.components =
    t.sourceRoot.components ++ f.components := by
  rw [← h.enumerated.components_join htree, ← hf.components_join htree]
  exact Path.same_iff.mp h.same

/-- A file is shown as its target sees it exactly if the source roots are the same. -/
theorem eq_iff : shown = f ↔ t.sourceRoot.same first.sourceRoot = true := by
  have heq := h.components_eq hf htree
  rw [Path.same_iff]
  constructor
  · rintro rfl
    exact (List.append_cancel_right heq).symm
  · intro hroots
    rw [hroots] at heq
    exact h.enumerated.eq_of_components_eq hf htree (List.append_cancel_left heq)

/-- What is shown means the file for its target exactly if the source roots are the same. -/
theorem join_same_iff : (t.sourceRoot.join shown).same (t.sourceRoot.join f) = true ↔
    t.sourceRoot.same first.sourceRoot = true := by
  rw [← h.eq_iff hf htree, Path.same_iff, h.enumerated.components_join htree,
    hf.components_join htree, List.append_cancel_left_eq]
  constructor
  · exact h.enumerated.eq_of_components_eq hf htree
  · exact fun heq => heq ▸ rfl

/-- No source root lies inside another one, so a file is shown as its target sees it. -/
theorem eq_of_hasApartSources (hroots : project.config.HasApartSources)
    (ht : t ∈ project.config.targets) : shown = f := by
  obtain ⟨k, -, hfirst⟩ := h.target?
  exact h.enumerated.eq_of_same hf htree hroots (List.mem_of_getElem? hfirst) ht h.same

end ShownAs

/-- Where a source is and how it is shown is all that matters. -/
theorem IsSeenBy.congr {k : Nat} {s s₀ : Source} (h : project.IsSeenBy tree k first s₀)
    (habsolute : s.absolute = s₀.absolute) (hrelative : s.relative = s₀.relative) :
    project.IsSeenBy tree k first s :=
  ⟨h.target?, hrelative ▸ h.enumerated, by rw [habsolute, hrelative, h.absolute]⟩

/-- A source that a target has is shown for its file as the target sees it that has it first. -/
theorem IsSeenBy.shownAs {k : Nat} {s : Source} (h : project.IsSeenBy tree k first s) (hk : k ≤ i)
    (hsame : s.absolute.same (t.sourceRoot.join f) = true) :
    project.ShownAs tree i t f s.relative first :=
  ⟨⟨k, hk, h.target?⟩, h.enumerated, h.absolute ▸ hsame⟩

end Project

namespace Planner

variable {project : Project} {tree : Tree} {p : Planner} {t : Target} {i : Nat}
  {files : List Path} {registry : Registry} {state : Planner × List PlannedUnit} {e : UnitError}

/-! ### Errors of files -/

/-- What is wrong with a chain is not a collision. -/
theorem kind_of_mem_planSteps [Schema.Compiler] {cache : ValidationCache}
    {steps : List ChainStep} {e : BuildError} (he : e ∈ (planSteps registry cache steps).2.2) :
    e.kind ≠ .outputCollision := by
  induction steps generalizing cache with
  | nil => simp [planSteps] at he
  | cons step rest ih =>
    have hstep : ∀ e', (planStep registry cache step).2 = .error e' →
        e'.kind ≠ .outputCollision := by
      intro e' he'
      unfold planStep at he'
      split at he'
      · rename_i cause _
        obtain rfl := Except.error.inj he'
        cases cause <;> simp [BuildError.kind]
      · split at he'
        · cases he'
        · obtain rfl := Except.error.inj he'
          simp [BuildError.kind]
    unfold planSteps at he
    dsimp only at he
    split at he
    · exact ih he
    · rename_i e' he'
      rcases List.mem_cons.mp he with rfl | he
      · exact hstep e he'
      · exact ih he

/-- Looking at files adds no collision. -/
theorem mem_errors_planFiles [Schema.Compiler]
    (he : e ∈ (files.foldl (planFile registry i t) state).1.errors) :
    e ∈ state.1.errors ∨ e.error.kind ≠ .outputCollision := by
  induction files generalizing state with
  | nil => exact Or.inl he
  | cons f files ih =>
    refine (ih he).elim (fun he => ?_) Or.inr
    unfold planFile at he
    dsimp only at he
    split_ifs at he
    · exact Or.inl he
    · rw [failAll_eq] at he
      refine (List.mem_append.mp he).imp_right fun he => ?_
      obtain ⟨cause, hcause, rfl⟩ := List.mem_map.mp he
      exact kind_of_mem_planSteps hcause

/-! ### Planning targets -/

/-- What is known when some targets have been planned: every source is shown as one of them sees
it, for a unit one that does not come after its target, and so is each source of a collision. -/
structure IsShownUpTo (project : Project) (tree : Tree) (count : Nat) (p : Planner) : Prop
    extends IsPlanUpTo project tree count p where
  seen : ∀ s ∈ p.sources, ∃ k < count, ∃ first, project.IsSeenBy tree k first s
  units : ∀ u ∈ p.units, ∀ s, p.sources[u.source]? = some s →
    ∃ k ≤ u.targetIndex, ∃ first, project.IsSeenBy tree k first s
  collisions : ∀ e ∈ p.errors, ∀ path shown, e.error = .outputCollision path shown →
    ∃ i t, project.config.targets[i]? = some t ∧ e.target = t.id ∧ ∀ q ∈ shown, ∃ f first,
      project.Enumerates tree t f ∧ project.ShownAs tree i t f q first

/-- A source among those that some units retain is one of the sources, apart from its users. -/
theorem exists_of_mem_retainAll {units : List PlannedUnit} {sources : List Source} {s : Source}
    {k : Nat} (hs : (retainAll units sources)[k]? = some s) :
    ∃ s₀, sources[k]? = some s₀ ∧ s.absolute = s₀.absolute ∧ s.relative = s₀.relative := by
  rw [getElem?_retainAll] at hs
  obtain ⟨s₀, hs₀, rfl⟩ := Option.map_eq_some_iff.mp hs
  exact ⟨s₀, hs₀, rfl, rfl⟩

namespace IsShownUpTo

/-- When the files of a target have been looked at, sources are shown as that target or one before
it sees them. -/
theorem seen_collected (h : IsShownUpTo project tree i p)
    (ht : project.config.targets[i]? = some t)
    (hfiles : t.enumerate tree project.skip = .ok files)
    (hcollected : Collected t i p files state) :
    ∀ s ∈ state.1.sources, ∃ k ≤ i, ∃ first, project.IsSeenBy tree k first s := by
  obtain ⟨more, hmore, hnew⟩ := hcollected.sources
  intro s hs
  rw [hmore] at hs
  rcases List.mem_append.mp hs with hs | hs
  · obtain ⟨k, hk, first, hseen⟩ := h.seen s hs
    exact ⟨k, Nat.le_of_lt hk, first, hseen⟩
  · obtain ⟨relative, hrelative, rfl⟩ := hnew s hs
    exact ⟨i, Nat.le_refl i, t, ht, ⟨files, hfiles, hrelative⟩, rfl⟩

/-- The sources of a collision are shown as its target or one before it sees them. -/
theorem shownAs_of_collision {g : OutputGroup} {q : Path} (h : IsShownUpTo project tree i p)
    (ht : project.config.targets[i]? = some t)
    (hfiles : t.enumerate tree project.skip = .ok files) (hcollected : Collected t i p files state)
    (hg : g ∈ groups state.2) (hq : q ∈ g.units.map state.1.shownSource) :
    ∃ f first, project.Enumerates tree t f ∧ project.ShownAs tree i t f q first := by
  obtain ⟨u, hu, rfl⟩ := List.mem_map.mp hq
  obtain ⟨-, -, f, hf, -, s, hs, hsame⟩ :=
    hcollected.candidates u ((gathered_groups state.2).mem g hg u hu)
  obtain ⟨k, hk, first, hseen⟩ := h.seen_collected ht hfiles hcollected s (List.mem_of_getElem? hs)
  have hshown : state.1.shownSource u = s.relative := by
    rw [shownSource, hs, Option.getD_some]
  exact ⟨f, first, ⟨files, hfiles, hf⟩, hshown ▸ hseen.shownAs hk hsame⟩

/-- A target that adds nothing but an error, which is no collision. -/
theorem fail {e : BuildError} (h : IsShownUpTo project tree i p)
    (hplan : IsPlanUpTo project tree (i + 1) (p.fail t.id none e))
    (hkind : e.kind ≠ .outputCollision) :
    IsShownUpTo project tree (i + 1) (p.fail t.id none e) := by
  refine ⟨hplan, fun s hs => ?_, h.units, fun e' he' path shown hshown => ?_⟩
  · obtain ⟨k, hk, first, hseen⟩ := h.seen s hs
    exact ⟨k, Nat.lt_succ_of_lt hk, first, hseen⟩
  · rcases List.mem_append.mp he' with he' | he'
    · exact h.collisions e' he' path shown hshown
    · obtain rfl := List.mem_singleton.mp he'
      obtain rfl : e = .outputCollision path shown := hshown
      exact absurd rfl hkind

section Settled

variable (h : IsShownUpTo project tree i p) (ht : project.config.targets[i]? = some t)
  (hfiles : t.enumerate tree project.skip = .ok files)

include h ht hfiles

/-- Settling counts the users of sources, and leaves what they are shown as. -/
theorem seen_settled (hcollected : Collected t i p files state) :
    ∀ s ∈ retainAll (settled (groups state.2)) state.1.sources,
      ∃ k < i + 1, ∃ first, project.IsSeenBy tree k first s := by
  intro s hs
  obtain ⟨l, hl⟩ := List.mem_iff_getElem?.mp hs
  obtain ⟨s₀, hs₀, habsolute, hrelative⟩ := exists_of_mem_retainAll hl
  obtain ⟨k, hk, first, hfirst⟩ :=
    h.seen_collected ht hfiles hcollected s₀ (List.mem_of_getElem? hs₀)
  exact ⟨k, Nat.lt_succ_of_le hk, first, hfirst.congr habsolute hrelative⟩

/-- The source of a unit is shown as its target or one before it sees it. -/
theorem units_settled (hcollected : Collected t i p files state) :
    ∀ u ∈ p.units ++ settled (groups state.2), ∀ s,
      (retainAll (settled (groups state.2)) state.1.sources)[u.source]? = some s →
        ∃ k ≤ u.targetIndex, ∃ first, project.IsSeenBy tree k first s := by
  intro u hu s hs
  obtain ⟨s₀, hs₀, habsolute, hrelative⟩ := exists_of_mem_retainAll hs
  rcases List.mem_append.mp hu with hu | hu
  · -- a unit that was planned before keeps its source
    obtain ⟨more, hmore, -⟩ := hcollected.sources
    obtain ⟨_, _, hplanned⟩ := h.isPlan.planned u hu
    rw [hmore, List.getElem?_append_left hplanned.source.lt_length] at hs₀
    obtain ⟨k, hk, first, hfirst⟩ := h.units u hu s₀ hs₀
    exact ⟨k, hk, first, hfirst.congr habsolute hrelative⟩
  · -- a new unit comes from this target
    have hindex := (hcollected.candidates u ((gathered_groups state.2).settled.1 u hu)).1
    obtain ⟨k, hk, first, hfirst⟩ :=
      h.seen_collected ht hfiles hcollected s₀ (List.mem_of_getElem? hs₀)
    exact ⟨k, hindex ▸ hk, first, hfirst.congr habsolute hrelative⟩

/-- Looking at files notes no collision, and each one that is noted then is of this target. -/
theorem collisions_settled [Schema.Compiler]
    (hstate : state = files.foldl (planFile project.registry i t) (p, []))
    (hcollected : Collected t i p files state) :
    ∀ e ∈ state.1.errors ++ (groups state.2).filterMap
        (OutputGroup.collision? t.id state.1.shownSource),
      ∀ path shown, e.error = .outputCollision path shown →
        ∃ j t', project.config.targets[j]? = some t' ∧ e.target = t'.id ∧ ∀ q ∈ shown,
          ∃ f first, project.Enumerates tree t' f ∧ project.ShownAs tree j t' f q first := by
  intro e he path shown hshown
  rcases List.mem_append.mp he with he | he
  · have hkind : e.error.kind = .outputCollision := by rw [hshown]; rfl
    rw [hstate] at he
    rcases mem_errors_planFiles he with he | hne
    · exact h.collisions e he path shown hshown
    · exact absurd hkind hne
  · obtain ⟨g, hg, hcollision⟩ := List.mem_filterMap.mp he
    obtain ⟨-, rfl⟩ := OutputGroup.collision?_eq_some_iff.mp hcollision
    obtain ⟨rfl, rfl⟩ := BuildError.outputCollision.inj hshown
    exact ⟨i, t, ht, rfl, fun q hq => h.shownAs_of_collision ht hfiles hcollected hg hq⟩

end Settled

/-- One more target was planned. -/
theorem planTarget [Schema.Compiler] (h : IsShownUpTo project tree i p) (htree : tree.WellFormed)
    (ht : project.config.targets[i]? = some t) :
    IsShownUpTo project tree (i + 1) (p.planTarget project.registry tree project.skip i t) := by
  have hplan := h.toIsPlanUpTo.planTarget htree ht
  obtain ⟨e, heq, hkind, -⟩ | ⟨files, state, -, hfiles, hstate, heq⟩ :=
    planTarget_cases project.registry tree project.skip p i t
  · rw [heq] at hplan ⊢
    exact h.fail hplan hkind
  · have hcollected : Collected t i p files state := hstate ▸ collected_planFiles htree hfiles
    obtain ⟨hunits, hsources⟩ := settleAll_eq t.id state.1 (groups state.2)
    have herrors := errors_settleAll t.id state.1 (groups state.2)
    rw [hcollected.units] at hunits
    rw [heq] at hplan ⊢
    refine ⟨hplan, ?_, ?_, ?_⟩
    · rw [hsources]
      exact h.seen_settled ht hfiles hcollected
    · rw [hunits, hsources]
      exact h.units_settled ht hfiles hcollected
    · rw [herrors]
      exact h.collisions_settled ht hfiles hstate hcollected

end IsShownUpTo

end Planner

namespace Project

variable {project : Project} {tree : Tree}

theorem exists_isShownUpTo [Schema.Compiler] (project : Project) (htree : tree.WellFormed) :
    ∃ p : Planner, Planner.IsShownUpTo project tree project.config.targets.length p ∧
      project.plan tree = p.result := by
  refine plan_induction ⟨Planner.isPlanUpTo_empty project tree, ?_, ?_, ?_⟩
    fun k t p ht hp => hp.planTarget htree ht <;> simp [Planner.empty]

/-- How a plan shows sources. -/
structure ShowsSources (project : Project) (tree : Tree) (p : Plan) : Prop where
  /-- The source of a unit is shown as a target sees it that comes no later than its own and has
  the file as well. Seen from its own target, this is the source exactly if the two source roots
  are the same. -/
  units : ∀ u ∈ p.units, ∃ t f first, project.PlannedFrom tree p.sources t f u ∧
    project.ShownAs tree u.targetIndex t f (p.sourceOf u).relative first ∧
    ((t.sourceRoot.join (p.sourceOf u).relative).same (p.sourceOf u).absolute = true ↔
      t.sourceRoot.same first.sourceRoot = true)
  /-- The sources of a collision, which are files of its target, are shown in the same way. -/
  collisions : ∀ e ∈ p.errors, ∀ path shown, e.error = .outputCollision path shown →
    ∃ i t, project.config.targets[i]? = some t ∧ e.target = t.id ∧ ∀ q ∈ shown, ∃ f first,
      project.Enumerates tree t f ∧ project.ShownAs tree i t f q first ∧
      (q = f ↔ t.sourceRoot.same first.sourceRoot = true)
  /-- If no source root lies inside another one, every source is shown as its own target sees
  it. -/
  apart : project.config.HasApartSources →
    (∀ u ∈ p.units, ∃ t, project.config.targets[u.targetIndex]? = some t ∧
      (t.sourceRoot.join (p.sourceOf u).relative).same (p.sourceOf u).absolute = true) ∧
    ∀ e ∈ p.errors, ∀ path shown, e.error = .outputCollision path shown →
      ∃ t ∈ project.config.targets, e.target = t.id ∧ ∀ q ∈ shown, project.Enumerates tree t q

/-- Sources are shown as the first of the targets sees them that have them. For the other ones this
is right exactly if they have the same source root, which is always so if no source root lies
inside another one. -/
theorem plan_shows_sources [Schema.Compiler] (htree : tree.WellFormed) :
    project.ShowsSources tree (project.plan tree) := by
  obtain ⟨p, hp, hplan⟩ := exists_isShownUpTo project htree
  rw [hplan]
  have hunits : ∀ u ∈ p.units, ∃ t f first, project.PlannedFrom tree p.sources t f u ∧
      project.ShownAs tree u.targetIndex t f (p.result.sourceOf u).relative first ∧
      (p.result.sourceOf u).absolute.same (t.sourceRoot.join f) = true := by
    intro u hu
    obtain ⟨t, f, hplanned⟩ := hp.isPlan.planned u hu
    obtain ⟨s, hs, hsame⟩ := id hplanned.source
    obtain ⟨k, hk, first, hseen⟩ := hp.units u hu s hs
    have hsource : p.result.sourceOf u = s := by
      change (p.sources[u.source]?).getD _ = s
      rw [hs, Option.getD_some]
    exact ⟨t, f, first, hplanned, hsource ▸ hseen.shownAs hk hsame, hsource ▸ hsame⟩
  refine ⟨fun u hu => ?_, fun e he path shown hshown => ?_,
    fun hroots => ⟨fun u hu => ?_, fun e he path shown hshown => ?_⟩⟩
  · obtain ⟨t, f, first, hplanned, hshown, hsame⟩ := hunits u hu
    refine ⟨t, f, first, hplanned, hshown, ?_⟩
    rw [← hshown.join_same_iff hplanned.enumerated htree, Path.same_iff, Path.same_iff,
      Path.same_iff.mp hsame]
  · obtain ⟨i, t, ht, htarget, hsources⟩ := hp.collisions e he path shown hshown
    refine ⟨i, t, ht, htarget, fun q hq => ?_⟩
    obtain ⟨f, first, hf, hfirst⟩ := hsources q hq
    exact ⟨f, first, hf, hfirst, hfirst.eq_iff hf htree⟩
  · obtain ⟨t, f, first, hplanned, hshown, hsame⟩ := hunits u hu
    refine ⟨t, hplanned.target?, ?_⟩
    rw [hshown.eq_of_hasApartSources hplanned.enumerated htree hroots
      (List.mem_of_getElem? hplanned.target?), Path.same_comm]
    exact hsame
  · obtain ⟨i, t, ht, htarget, hsources⟩ := hp.collisions e he path shown hshown
    refine ⟨t, List.mem_of_getElem? ht, htarget, fun q hq => ?_⟩
    obtain ⟨f, first, hf, hfirst⟩ := hsources q hq
    rwa [hfirst.eq_of_hasApartSources hf htree hroots (List.mem_of_getElem? ht)]

theorem twoOutputs_shows_sources : oneFileTree.WellFormed ∧ twoOutputs.config.HasApartSources ∧
    (twoOutputs.plan oneFileTree).units.map
        (fun u => ((twoOutputs.plan oneFileTree).sourceOf u).relative) = [⟨"a.js"⟩, ⟨"a.js"⟩] ∧
    twoOutputs.ShowsSources oneFileTree (twoOutputs.plan oneFileTree) := by
  have htree : oneFileTree.WellFormed := by decide +kernel
  refine ⟨htree, ?_, by decide +kernel, plan_shows_sources htree⟩
  simp [BuildConfig.HasApartSources, twoOutputs, Target.new, Path.not_isInside_self]

/-- Two targets of which the second has a part of the source tree of the first. -/
def librarySources : Project :=
  ⟨⟨none, [Target.new "all" ⟨"/src"⟩ ⟨"/out1"⟩, Target.new "lib" ⟨"/src/lib"⟩ ⟨"/out2"⟩]⟩,
    Registry.empty, 1⟩

/-- A tree with a single file, two directories down. -/
def libraryTree : Tree :=
  ⟨[(["src"], .directory), (["src", "lib"], .directory), (["src", "lib", "a.js"], .file ⟨#[65]⟩)],
    []⟩

theorem librarySources_units_ne_nil : (librarySources.plan libraryTree).units ≠ [] := by
  decide +kernel

/-- The unit of the second target. -/
def unitInside : PlannedUnit :=
  (librarySources.plan libraryTree).units.getLast librarySources_units_ne_nil

/-- If a source root lies inside another one, what is shown for a unit can be a path that is not
the one of its source. -/
theorem librarySources_shown_elsewhere :
    librarySources.config.fault? = none ∧ libraryTree.WellFormed ∧
    ¬∀ u ∈ (librarySources.plan libraryTree).units, ∀ t,
      librarySources.config.targets[u.targetIndex]? = some t →
      (t.sourceRoot.join ((librarySources.plan libraryTree).sourceOf u).relative).same
        ((librarySources.plan libraryTree).sourceOf u).absolute = true := by
  refine ⟨by decide +kernel, by decide +kernel, fun h => ?_⟩
  have hindex : unitInside.targetIndex = 1 := by decide +kernel
  have hshown := h unitInside (List.getLast_mem librarySources_units_ne_nil)
    (Target.new "lib" ⟨"/src/lib"⟩ ⟨"/out2"⟩) (by rw [hindex]; rfl)
  revert hshown
  decide +kernel

end Project

end Filewise
