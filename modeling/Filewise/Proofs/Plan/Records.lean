import Filewise.Proofs.Plan.Candidates
import Filewise.Proofs.Plan.Separation

/-!
# What is left of the files of a target

When a target is planned, its clean files become candidates, which are grouped by their output
paths. A group with one candidate leaves a unit, any other group an error; faulty files leave the
faults of their chains. Planning the targets that follow adds to the plan, but only units and
errors of their own.

## Main definitions

* `Planner.Records`: what is left of the files of a target in a plan.
* `Planner.IsAccountedUpTo`: every target so far is accounted for.

## Main results

* `Planner.IsAccountedUpTo.planTarget`: what a planned target leaves, and what it keeps of the
  targets before it.
* `Project.isAccounted_plan`: every target of a plan is accounted for.
-/

namespace Filewise

/-- Where each element of a list tells the related one, the one list is made from the other. -/
theorem map_eq_of_forall₂ {α β : Type} {R : α → β → Prop} {f : β → α} {as : List α} {bs : List β}
    (h : List.Forall₂ R as bs) (hf : ∀ a ∈ as, ∀ b, R a b → f b = a) :
    bs.map f = as ∧ ∀ b ∈ bs, R (f b) b := by
  induction h with
  | nil => simp
  | cons hab _ ih =>
    obtain ⟨hmap, hrest⟩ := ih fun a ha => hf a (List.mem_cons_of_mem _ ha)
    have heq := hf _ List.mem_cons_self _ hab
    exact ⟨by rw [List.map_cons, heq, hmap], List.forall_mem_cons.mpr ⟨heq.symm ▸ hab, hrest⟩⟩

/-- Units are listed by their targets, and those of a target by their output paths. -/
def PlannedUnit.Precedes (u v : PlannedUnit) : Prop :=
  u.targetIndex < v.targetIndex ∨
    u.targetIndex = v.targetIndex ∧ u.outputPath.compare v.outputPath = .lt

namespace Planner

variable {project : Project} {tree : Tree} {registry : Registry} {t : Target} {i k : Nat}
  {files : List Path} {p p' : Planner} {plan : Plan} {candidates : List PlannedUnit}
  {shown : PlannedUnit → Path} {state : Planner × List PlannedUnit} {target : String}

/-- What planning a target does to what was planned before. -/
structure Continues (i : Nat) (target : String) (p p' : Planner) : Prop where
  units : ∃ more, p'.units = p.units ++ more ∧ ∀ u ∈ more, u.targetIndex = i
  errors : ∃ more, p'.errors = p.errors ++ more ∧ ∀ e ∈ more, e.target = target
  sources : ∀ k absolute, Source.IsAt p.sources k absolute → Source.IsAt p'.sources k absolute

theorem continues_fail (i : Nat) (target : String) (p : Planner) (source : Option Path)
    (e : BuildError) : Continues i target p (p.fail target source e) :=
  ⟨⟨[], (List.append_nil _).symm, by simp⟩, ⟨[_], rfl, by simp⟩, fun _ _ h => h⟩

theorem index_of_mem_settled (hcollected : Collected t i p files state) {u : PlannedUnit}
    (hu : u ∈ settled (groups state.2)) : u.targetIndex = i :=
  (hcollected.candidates u ((gathered_groups state.2).settled.1 u hu)).1

/-! ### What a target leaves in a plan -/

variable [Schema.Compiler]

/-- The errors that are reported for a target. -/
def reported (registry : Registry) (t : Target) (files : List Path) (candidates : List PlannedUnit)
    (shown : PlannedUnit → Path) : List UnitError :=
  files.flatMap (t.faultErrors registry) ++
    (groups candidates).filterMap (OutputGroup.collision? t.id shown)

/-- What a plan keeps of a target: units from the groups that have one candidate, and errors from
faulty files and from the other groups. -/
structure Records (registry : Registry) (t : Target) (i : Nat) (files : List Path) (plan : Plan)
    (candidates : List PlannedUnit) (shown : PlannedUnit → Path) : Prop where
  clean : candidates.map shown = t.clean registry files
  planned : ∀ u ∈ candidates, t.IsUnitFor registry i plan.sources (shown u) u
  units : plan.units.filter (·.targetIndex = i) = settled (groups candidates)
  errors : plan.errors.filter (·.target = t.id) = reported registry t files candidates shown

/-- Planning another target changes nothing in what is kept of a target. -/
theorem Records.continue (h : Records registry t k files p.result candidates shown)
    (hnext : Continues i target p p') (hindex : i ≠ k) (hid : target ≠ t.id) :
    Records registry t k files p'.result candidates shown := by
  obtain ⟨⟨units, hunits, hunit⟩, ⟨errors, herrors, herror⟩, hsources⟩ := hnext
  have hunits₀ : units.filter (·.targetIndex = k) = [] :=
    List.filter_eq_nil_iff.mpr fun u hu => by simp [hunit u hu, hindex]
  have herrors₀ : errors.filter (·.target = t.id) = [] :=
    List.filter_eq_nil_iff.mpr fun e he => by simp [herror e he, hid]
  refine ⟨h.clean, fun u hu => ?_, ?_, ?_⟩
  · exact { h.planned u hu with source := hsources _ _ (h.planned u hu).source }
  · change p'.units.filter _ = _
    rw [hunits, List.filter_append, hunits₀, List.append_nil]
    exact h.units
  · change p'.errors.filter _ = _
    rw [herrors, List.filter_append, herrors₀, List.append_nil]
    exact h.errors

/-- What is known when some targets have been planned: every one of them is accounted for. -/
structure IsAccountedUpTo (project : Project) (tree : Tree) (count : Nat) (p : Planner) : Prop
    extends IsPlanUpTo project tree count p where
  cache : p.cache.IsFaithful project.registry
  failed : ∀ e ∈ p.errors, ∃ k t, k < count ∧ project.config.targets[k]? = some t ∧ e.target = t.id
  ascending : p.units.Pairwise PlannedUnit.Precedes
  records : ∀ k t files, k < count → project.config.targets[k]? = some t →
    t.sourceRoot.startsWith t.outputRoot = false → t.enumerate tree project.skip = .ok files →
    ∃ candidates shown, Records project.registry t k files p.result candidates shown

namespace IsAccountedUpTo

/-- Targets that were planned before are still accounted for. -/
theorem records_continue (h : IsAccountedUpTo project tree i p)
    (hvalid : project.config.fault? = none) (ht : project.config.targets[i]? = some t)
    (hnext : Continues i t.id p p') {t' : Target} (hk : k < i)
    (ht' : project.config.targets[k]? = some t')
    (hcontains : t'.sourceRoot.startsWith t'.outputRoot = false)
    (hfiles : t'.enumerate tree project.skip = .ok files) :
    ∃ candidates shown, Records project.registry t' k files p'.result candidates shown := by
  obtain ⟨candidates, shown, hrecords⟩ := h.records k t' files hk ht' hcontains hfiles
  refine ⟨candidates, shown, hrecords.continue hnext (Nat.ne_of_gt hk) fun hid => ?_⟩
  exact Nat.ne_of_gt hk (BuildConfig.index_eq_of_id hvalid ht ht' hid)

/-- Every error belongs to a target that was planned. -/
theorem failed_continue (h : IsAccountedUpTo project tree i p)
    (ht : project.config.targets[i]? = some t) (hnext : Continues i t.id p p') :
    ∀ e ∈ p'.errors, ∃ k t, k < i + 1 ∧ project.config.targets[k]? = some t ∧ e.target = t.id := by
  obtain ⟨errors, herrors, herror⟩ := hnext.errors
  rw [herrors]
  intro e he
  rcases List.mem_append.mp he with he | he
  · obtain ⟨k, t', hk, ht', htarget⟩ := h.failed e he
    exact ⟨k, t', Nat.lt_succ_of_lt hk, ht', htarget⟩
  · exact ⟨i, t, Nat.lt_succ_self i, ht, herror e he⟩

/-- Candidates are shown by the files that they were made from. -/
theorem exists_shown (h : IsAccountedUpTo project tree i p) (htree : tree.WellFormed)
    (hroots : project.config.HasApartSources) (ht : project.config.targets[i]? = some t)
    (hfiles : t.enumerate tree project.skip = .ok files)
    (hcollected : Collected t i p files state)
    (hsorted : Sorted project.registry t i p files state) :
    state.2.map state.1.shownSource = t.clean project.registry files ∧
      ∀ u ∈ state.2, t.IsUnitFor project.registry i state.1.sources (state.1.shownSource u) u := by
  refine map_eq_of_forall₂ hsorted.candidates fun f hf u hu => ?_
  have hfile : f ∈ files := (List.mem_filter.mp hf).1
  obtain ⟨s, hs, hsame⟩ := hu.source
  have hfresh := h.isFreshSource ht hfiles hcollected (List.mem_of_getElem? hs)
  rw [shownSource, hs, Option.getD_some]
  exact hfresh.relative_eq htree hroots (List.mem_of_getElem? ht) ⟨files, hfiles, hfile⟩ hsame

end IsAccountedUpTo

/-! ### Planning one more target -/

theorem target_of_mem_reported {e : UnitError}
    (he : e ∈ reported registry t files candidates shown) : e.target = t.id := by
  rcases List.mem_append.mp he with he | he
  · obtain ⟨f, -, he⟩ := List.mem_flatMap.mp he
    obtain ⟨fault, -, rfl⟩ := List.mem_map.mp he
    rfl
  · obtain ⟨g, -, he⟩ := List.mem_filterMap.mp he
    rw [(OutputGroup.collision?_eq_some_iff.mp he).2]

/-- What settling the groups of a target adds to a plan. -/
theorem settle_sorted (hcollected : Collected t i p files state)
    (hsorted : Sorted registry t i p files state)
    (hp' : p' = (groups state.2).foldl (settle t.id) state.1) :
    p'.units = p.units ++ settled (groups state.2) ∧
      p'.errors = p.errors ++ reported registry t files state.2 state.1.shownSource ∧
      p'.cache.IsFaithful registry := by
  subst hp'
  refine ⟨?_, ?_, ?_⟩
  · rw [(settleAll_eq t.id state.1 _).1, hcollected.units]
  · rw [errors_settleAll, hsorted.errors, List.append_assoc, reported]
  · rw [cache_settleAll]
    exact hsorted.cache

theorem continues_settle (hcollected : Collected t i p files state)
    (hsorted : Sorted registry t i p files state)
    (hp' : p' = (groups state.2).foldl (settle t.id) state.1) : Continues i t.id p p' := by
  obtain ⟨hunits, herrors, -⟩ := settle_sorted hcollected hsorted hp'
  refine ⟨⟨_, hunits, fun u hu => index_of_mem_settled hcollected hu⟩,
    ⟨_, herrors, fun e he => target_of_mem_reported he⟩, fun k absolute hat => ?_⟩
  obtain ⟨more, hmore, -⟩ := hcollected.sources
  rw [hp', (settleAll_eq t.id state.1 _).2]
  exact isAt_retainAll (hat.of_prefix ⟨more, hmore.symm⟩) _

namespace IsAccountedUpTo

/-- A target that was planned is accounted for. -/
theorem records_settle (h : IsAccountedUpTo project tree i p) (htree : tree.WellFormed)
    (hvalid : project.config.fault? = none) (hroots : project.config.HasApartSources)
    (ht : project.config.targets[i]? = some t)
    (hfiles : t.enumerate tree project.skip = .ok files)
    (hcollected : Collected t i p files state)
    (hsorted : Sorted project.registry t i p files state)
    (hp' : p' = (groups state.2).foldl (settle t.id) state.1) :
    Records project.registry t i files p'.result state.2 state.1.shownSource := by
  obtain ⟨hclean, hplanned⟩ := h.exists_shown htree hroots ht hfiles hcollected hsorted
  obtain ⟨hunits, herrors, -⟩ := settle_sorted hcollected hsorted hp'
  have hunits₀ : p.units.filter (·.targetIndex = i) = [] :=
    List.filter_eq_nil_iff.mpr fun u hu => by simpa using Nat.ne_of_lt (h.before u hu)
  have hunits₁ : (settled (groups state.2)).filter (·.targetIndex = i) =
      settled (groups state.2) :=
    List.filter_eq_self.mpr fun u hu => by simpa using index_of_mem_settled hcollected hu
  -- errors of other targets have other ids
  have herrors₀ : p.errors.filter (·.target = t.id) = [] := by
    refine List.filter_eq_nil_iff.mpr fun e he hid => ?_
    obtain ⟨k, t', hk, ht', htarget⟩ := h.failed e he
    have hid : t'.id = t.id := by rw [← htarget]; simpa using hid
    exact Nat.ne_of_lt hk (BuildConfig.index_eq_of_id hvalid ht' ht hid)
  have herrors₁ : (reported project.registry t files state.2 state.1.shownSource).filter
      (·.target = t.id) = reported project.registry t files state.2 state.1.shownSource :=
    List.filter_eq_self.mpr fun e he => by simpa using target_of_mem_reported he
  refine ⟨hclean, fun u hu => ?_, ?_, ?_⟩
  · refine { hplanned u hu with source := ?_ }
    change Source.IsAt p'.sources _ _
    rw [hp', (settleAll_eq t.id state.1 _).2]
    exact isAt_retainAll (hplanned u hu).source _
  · change p'.units.filter _ = _
    rw [hunits, List.filter_append, hunits₀, hunits₁, List.nil_append]
  · change p'.errors.filter _ = _
    rw [herrors, List.filter_append, herrors₀, herrors₁, List.nil_append]

/-- Units stay in strictly ascending order. -/
theorem ascending_settle (h : IsAccountedUpTo project tree i p)
    (hcollected : Collected t i p files state) :
    (p.units ++ settled (groups state.2)).Pairwise PlannedUnit.Precedes := by
  refine List.pairwise_append.mpr ⟨h.ascending, ?_, fun u hu v hv => ?_⟩
  · refine (gathered_groups state.2).ascending_settled.imp_of_mem fun hu hv hlt => Or.inr ⟨?_, hlt⟩
    rw [index_of_mem_settled hcollected hu, index_of_mem_settled hcollected hv]
  · left
    rw [index_of_mem_settled hcollected hv]
    exact h.before u hu

/-- One more target was planned. -/
theorem planTarget (h : IsAccountedUpTo project tree i p) (htree : tree.WellFormed)
    (hvalid : project.config.fault? = none) (hjson : project.config.HasJsonOptions)
    (hroots : project.config.HasApartSources) (ht : project.config.targets[i]? = some t) :
    IsAccountedUpTo project tree (i + 1)
      (p.planTarget project.registry tree project.skip i t) := by
  have hplan := h.toIsPlanUpTo.planTarget htree ht
  obtain ⟨e, heq, -, hunplanned⟩ | ⟨files, state, -, hfiles, hstate, heq⟩ :=
    planTarget_cases project.registry tree project.skip p i t
  · rw [heq] at hplan ⊢
    have hnext := continues_fail i t.id p none e
    refine ⟨hplan, h.cache, h.failed_continue ht hnext, h.ascending, ?_⟩
    intro k t' files hk ht' hcontains hfiles
    rcases Nat.lt_succ_iff_lt_or_eq.mp hk with hk | rfl
    · exact h.records_continue hvalid ht hnext hk ht' hcontains hfiles
    · obtain rfl := Option.some_inj.mp (ht'.symm.trans ht)
      exact absurd ⟨hcontains, files, hfiles⟩ hunplanned
  · have hcollected : Collected t i p files state := hstate ▸ collected_planFiles htree hfiles
    have hsorted : Sorted project.registry t i p files state := by
      have hstart : Sorted project.registry t i p [] (p, []) :=
        ⟨h.cache, by simp, List.Forall₂.nil⟩
      exact hstate ▸ hstart.planFiles (hjson t (List.mem_of_getElem? ht))
    have hnext := continues_settle hcollected hsorted heq
    obtain ⟨hunits, -, hcache⟩ := settle_sorted hcollected hsorted heq
    refine ⟨hplan, hcache, h.failed_continue ht hnext, ?_, ?_⟩
    · rw [hunits]
      exact h.ascending_settle hcollected
    · intro k t' files' hk ht' hcontains hfiles'
      rcases Nat.lt_succ_iff_lt_or_eq.mp hk with hk | rfl
      · exact h.records_continue hvalid ht hnext hk ht' hcontains hfiles'
      · obtain rfl := Option.some_inj.mp (ht'.symm.trans ht)
        obtain rfl := Except.ok.inj (hfiles'.symm.trans hfiles)
        exact ⟨_, _, h.records_settle htree hvalid hroots ht hfiles hcollected hsorted heq⟩

end IsAccountedUpTo

end Planner

/-- Every target that can be planned is accounted for, and units are in strictly ascending order. -/
theorem Project.isAccounted_plan [Schema.Compiler] {project : Project} {tree : Tree}
    (htree : tree.WellFormed) (hvalid : project.config.fault? = none)
    (hjson : project.config.HasJsonOptions) (hroots : project.config.HasApartSources) :
    (project.plan tree).units.Pairwise PlannedUnit.Precedes ∧
      ∀ i t files, project.config.targets[i]? = some t →
        t.sourceRoot.startsWith t.outputRoot = false →
        t.enumerate tree project.skip = .ok files → ∃ candidates shown,
        Planner.Records project.registry t i files (project.plan tree) candidates shown := by
  have hempty : Planner.IsAccountedUpTo project tree 0 Planner.empty :=
    { Planner.isPlanUpTo_empty project tree with
      cache := ValidationCache.isFaithful_empty project.registry
      failed := by simp [Planner.empty]
      ascending := List.Pairwise.nil
      records := fun k t files hk => absurd hk (Nat.not_lt_zero k) }
  obtain ⟨p, hp, hplan⟩ := plan_induction hempty fun k t p ht hp =>
    hp.planTarget htree hvalid hjson hroots ht
  rw [hplan]
  refine ⟨hp.ascending, fun i t files ht hcontains hfiles => ?_⟩
  exact hp.records i t files (List.getElem?_eq_some_iff.mp ht).1 ht hcontains hfiles

end Filewise
