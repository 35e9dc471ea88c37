import Filewise.Proofs.Plan.Groups
import Filewise.Proofs.Plan.OutputPath
import Filewise.Proofs.Source.Enumerate
import Mathlib.Data.List.Pairwise

/-!
# What is known of a plan

Every planned unit comes from an enumerated file of its target and goes to the path
that its steps give that file. Two units of one target come from different files and
go to different places. No file comes twice among the sources, none has been read, and
each is retained once for each of its units.

## Main definitions

* `Project.PlannedFrom`: the target and the file that a unit was planned from.
* `Project.IsPlan`: what is known of a plan.

## Main results

* `Project.isPlan_plan`: it is known of every plan that is made for a well-formed tree.
-/

namespace Filewise

/-! ### Enumerated files -/

namespace Target.IsEnumerated

variable {t : Target} {tree : Tree} {skip : List Path} {p base : Path} {names : Location}

theorem isOutput (h : t.IsEnumerated tree skip p names) : p.IsOutput := by
  rw [h.eq_ofNames]
  exact Path.isOutput_ofNames h.ne_nil h.isName

theorem components_eq (h : t.IsEnumerated tree skip p names) : p.components = names.map .name := by
  rw [h.eq_ofNames, Path.components_ofNames h.isName]

/-- Seen from elsewhere, nothing is lost of an enumerated path. -/
theorem components_join (h : t.IsEnumerated tree skip p names) (base : Path) :
    (base.join p).components = base.components ++ p.components := by
  rw [Path.components_join_of_names h.components_eq, h.components_eq]

end Target.IsEnumerated

/-! ### What is known of units and sources -/

/-- The place of a file among sources. -/
def Source.IsAt (sources : List Source) (i : Nat) (absolute : Path) : Prop :=
  ∃ s, sources[i]? = some s ∧ s.absolute.same absolute = true

/-- No file comes twice among sources. -/
def Source.Distinct (sources : List Source) : Prop :=
  (sources.map Source.absolute).Pairwise fun p q => p.same q = false

namespace Project

variable {project : Project} {tree : Tree} {sources sources' : List Source} {u v : PlannedUnit}
  {t : Target} {relative : Path}

/-- The places that are left out of the source trees of a project. -/
def skip (project : Project) : List Path := project.config.targets.map Target.outputRoot

/-- The file was enumerated for the target. -/
def Enumerates (project : Project) (tree : Tree) (t : Target) (relative : Path) : Prop :=
  ∃ files, t.enumerate tree project.skip = .ok files ∧ relative ∈ files

namespace Enumerates

variable {t' : Target} {f g : Path}

theorem exists_names (h : project.Enumerates tree t f) (htree : tree.WellFormed) :
    ∃ names, t.IsEnumerated tree project.skip f names := by
  obtain ⟨files, hfiles, hf⟩ := h
  exact Target.mem_enumerate htree hfiles hf

/-- Seen from elsewhere, nothing is lost of a file. -/
theorem components_join (h : project.Enumerates tree t f) (htree : tree.WellFormed)
    (base : Path) : (base.join f).components = base.components ++ f.components := by
  obtain ⟨names, hnames⟩ := h.exists_names htree
  exact hnames.components_join base

/-- Files are told apart by their components. -/
theorem eq_of_components_eq (h : project.Enumerates tree t f) (h' : project.Enumerates tree t' g)
    (htree : tree.WellFormed) (heq : f.components = g.components) : f = g := by
  obtain ⟨names, hnames⟩ := h.exists_names htree
  obtain ⟨names', hnames'⟩ := h'.exists_names htree
  rw [hnames.components_eq, hnames'.components_eq] at heq
  rw [hnames.eq_ofNames, hnames'.eq_ofNames, Path.map_name_injective heq]

end Enumerates

/-- The unit was planned for the file of the target. -/
structure PlannedFrom (project : Project) (tree : Tree) (sources : List Source) (t : Target)
    (relative : Path) (u : PlannedUnit) : Prop where
  target? : project.config.targets[u.targetIndex]? = some t
  target : u.target = t.id
  apart : t.sourceRoot.startsWith t.outputRoot = false
  enumerated : project.Enumerates tree t relative
  outputPath : u.outputPath = (OutputPath.ofSteps relative u.steps).path
  source : Source.IsAt sources u.source (t.sourceRoot.join relative)

/-- Nobody has read the source, which is a file of some target, as that target sees it. -/
def IsFreshSource (project : Project) (tree : Tree) (s : Source) : Prop :=
  s.content = .unread ∧ ∃ t ∈ project.config.targets,
    project.Enumerates tree t s.relative ∧ s.absolute = t.sourceRoot.join s.relative

/-- What is known of sources and of units that were planned for them. -/
structure IsPlan (project : Project) (tree : Tree) (sources : List Source)
    (units : List PlannedUnit) : Prop where
  fresh : ∀ s ∈ sources, project.IsFreshSource tree s
  users : ∀ i s, sources[i]? = some s → s.users = units.countP (·.source == i)
  distinct : Source.Distinct sources
  planned : ∀ u ∈ units, ∃ t relative, project.PlannedFrom tree sources t relative u
  apart : units.Pairwise fun u v => u.targetIndex = v.targetIndex →
    u.source ≠ v.source ∧ u.outputPath.same v.outputPath = false

end Project

namespace Source.IsAt

variable {sources sources' : List Source} {i j : Nat} {absolute absolute' : Path}

/-- Sources keep their places when what they are stays the same. -/
theorem mono (h : IsAt sources i absolute)
    (hsame : ∀ s, sources[i]? = some s → ∃ s', sources'[i]? = some s' ∧ s'.absolute = s.absolute) :
    IsAt sources' i absolute := by
  obtain ⟨s, hs, habsolute⟩ := h
  obtain ⟨s', hs', heq⟩ := hsame s hs
  exact ⟨s', hs', heq ▸ habsolute⟩

theorem of_prefix (h : IsAt sources i absolute) (hpre : sources <+: sources') :
    IsAt sources' i absolute := by
  obtain ⟨more, rfl⟩ := hpre
  refine h.mono fun s hs => ⟨s, ?_, rfl⟩
  rw [List.getElem?_append_left (List.getElem?_eq_some_iff.mp hs).1, hs]

theorem lt_length (h : IsAt sources i absolute) : i < sources.length := by
  obtain ⟨s, hs, -⟩ := h
  exact (List.getElem?_eq_some_iff.mp hs).1

theorem same (h : IsAt sources i absolute) (h' : IsAt sources i absolute') :
    absolute.same absolute' = true := by
  obtain ⟨s, hs, habsolute⟩ := h
  obtain ⟨s', hs', habsolute'⟩ := h'
  obtain rfl := Option.some_inj.mp (hs.symm.trans hs')
  exact Path.same_trans (Path.same_comm ▸ habsolute) habsolute'

end Source.IsAt

/-- Sources that are the same file have one place. -/
theorem Source.Distinct.eq_of_same {sources : List Source} {i j : Nat} {s s' : Source}
    (h : Source.Distinct sources) (hs : sources[i]? = some s) (hs' : sources[j]? = some s')
    (hsame : s.absolute.same s'.absolute = true) : i = j := by
  refine index_eq_of_pairwise (List.pairwise_map.mp h) hs hs' (fun hapart => ?_) fun hapart => ?_
  · rw [hapart] at hsame
    simp at hsame
  · rw [Path.same_comm, hapart] at hsame
    simp at hsame

namespace Planner

variable {project : Project} {tree : Tree} {p : Planner} {t : Target} {i : Nat}
  {files done : List Path} {relative : Path} {candidates : List PlannedUnit}

/-! ### Adding sources -/

/-- A source that is asked for gets a place; the others keep theirs. -/
theorem addSource_spec (sources : List Source) (absolute relative : Path) :
    Source.IsAt (addSource sources absolute relative).1
      (addSource sources absolute relative).2 absolute ∧
    ∃ more, (addSource sources absolute relative).1 = sources ++ more ∧
      ∀ s ∈ more, s = Source.new absolute relative := by
  unfold addSource
  -- the file is among the sources, or it becomes the last of them
  split
  · rename_i k hk
    obtain ⟨hlt, hsame, -⟩ := List.findIdx?_eq_some_iff_getElem.mp hk
    exact ⟨⟨_, List.getElem?_eq_getElem hlt, hsame⟩, [], (List.append_nil _).symm, by simp⟩
  · refine ⟨⟨Source.new absolute relative, ?_, Path.same_refl _⟩, _, rfl, by simp⟩
    rw [List.getElem?_append_right (Nat.le_refl _), Nat.sub_self]
    rfl

/-- A file that is among the sources is not added again. -/
theorem distinct_addSource {sources : List Source} (h : Source.Distinct sources)
    (absolute relative : Path) : Source.Distinct (addSource sources absolute relative).1 := by
  unfold addSource
  split
  · exact h
  · rename_i hnone
    have hnew := List.findIdx?_eq_none_iff.mp hnone
    unfold Source.Distinct
    rw [List.map_append]
    refine List.pairwise_append.mpr ⟨h, List.pairwise_singleton _ _, ?_⟩
    intro p hp q hq
    obtain ⟨s, hs, rfl⟩ := List.mem_map.mp hp
    obtain rfl := List.mem_singleton.mp hq
    exact hnew s hs

/-! ### Planning files -/

/-- What is known of the units that were planned for some files of a target, before they
are gathered. -/
structure Collected (t : Target) (i : Nat) (start : Planner) (done : List Path)
    (state : Planner × List PlannedUnit) : Prop where
  units : state.1.units = start.units
  sources : ∃ more, state.1.sources = start.sources ++ more ∧
    ∀ s ∈ more, ∃ relative ∈ done, s = Source.new (t.sourceRoot.join relative) relative
  distinct : Source.Distinct start.sources → Source.Distinct state.1.sources
  candidates : ∀ u ∈ state.2, u.targetIndex = i ∧ u.target = t.id ∧ ∃ relative ∈ done,
    u.outputPath = (OutputPath.ofSteps relative u.steps).path ∧
    Source.IsAt state.1.sources u.source (t.sourceRoot.join relative)
  apart : state.2.Pairwise fun u v => u.source ≠ v.source

/-- Adding errors changes nothing else. -/
theorem failAll_eq (errors : List BuildError) (target : String) (source : Option Path)
    (p : Planner) : errors.foldl (fun p e => p.fail target source e) p =
      { p with errors := p.errors ++ errors.map fun e => ⟨target, source, e⟩ } := by
  induction errors generalizing p with
  | nil => simp
  | cons e errors ih =>
    rw [List.foldl_cons, ih]
    simp [fail]

/-- What is known stays known when more files are looked at. -/
theorem Collected.mono {start : Planner} {state : Planner × List PlannedUnit} {done' : List Path}
    (h : Collected t i start done state) (hdone : done ⊆ done') :
    Collected t i start done' state := by
  refine ⟨h.units, ?_, h.distinct, fun u hu => ?_, h.apart⟩
  · obtain ⟨more, hsources, hmore⟩ := h.sources
    refine ⟨more, hsources, fun s hs => ?_⟩
    obtain ⟨relative, hrelative, heq⟩ := hmore s hs
    exact ⟨relative, hdone hrelative, heq⟩
  · obtain ⟨hindex, htarget, relative, hrelative, hpath, hat⟩ := h.candidates u hu
    exact ⟨hindex, htarget, relative, hdone hrelative, hpath, hat⟩

/-- One more file was planned. -/
theorem Collected.planFile [Schema.Compiler] {registry : Registry} {start : Planner}
    {state : Planner × List PlannedUnit} (h : Collected t i start done state)
    (hfiles : ∀ p ∈ done ++ [relative], p.IsOutput)
    (hapart : ∀ p ∈ done, p.same relative = false) :
    Collected t i start (done ++ [relative]) (planFile registry i t state relative) := by
  obtain ⟨p, candidates⟩ := state
  have hlater := h.mono (List.subset_append_left done [relative])
  have hmem : relative ∈ done ++ [relative] := List.mem_append_right _ (List.mem_singleton_self _)
  unfold Planner.planFile
  dsimp only
  rcases planSteps registry p.cache (t.resolve relative).steps with ⟨cache, steps, errors⟩
  dsimp only
  -- a file is planned, with a place among the sources, or all its faults are noted
  split_ifs with herrors
  · obtain ⟨hat, new, hnew, hisNew⟩ :=
      addSource_spec p.sources (t.sourceRoot.join relative) relative
    have hpre : p.sources <+: (addSource p.sources (t.sourceRoot.join relative) relative).1 :=
      ⟨new, hnew.symm⟩
    refine ⟨h.units, ?_, fun hstart => distinct_addSource (h.distinct hstart) _ _,
      fun u hu => ?_, ?_⟩
    · obtain ⟨more, hsources, hmore⟩ := hlater.sources
      refine ⟨more ++ new, by rw [hnew, hsources, List.append_assoc], fun s hs => ?_⟩
      rcases List.mem_append.mp hs with hs | hs
      · exact hmore s hs
      · exact ⟨relative, hmem, hisNew s hs⟩
    · rcases List.mem_append.mp hu with hu | hu
      · obtain ⟨hindex, htarget, other, hother, hpath, hotherAt⟩ := hlater.candidates u hu
        exact ⟨hindex, htarget, other, hother, hpath, hotherAt.of_prefix hpre⟩
      · obtain rfl := List.mem_singleton.mp hu
        exact ⟨rfl, rfl, relative, hmem, rfl, hat⟩
    · refine List.pairwise_append.mpr ⟨h.apart, List.pairwise_singleton _ _, ?_⟩
      intro u hu v hv heq
      obtain rfl := List.mem_singleton.mp hv
      -- one place would hold both files, but no file comes twice
      obtain ⟨-, -, other, hother, -, hotherAt⟩ := h.candidates u hu
      have hplace := hotherAt.of_prefix hpre
      rw [heq] at hplace
      have hdone := (hfiles other (List.mem_append_left _ hother)).same_of_join_same
        (hfiles relative hmem) (hplace.same hat)
      rw [hapart other hother] at hdone
      simp at hdone
  · rw [failAll_eq]
    exact ⟨h.units, hlater.sources, h.distinct, hlater.candidates, h.apart⟩

/-- All files were planned. -/
theorem Collected.planFiles [Schema.Compiler] {registry : Registry} {start : Planner}
    {rest : List Path} {state : Planner × List PlannedUnit} (h : Collected t i start done state)
    (hfiles : ∀ p ∈ done ++ rest, p.IsOutput)
    (hapart : (done ++ rest).Pairwise fun p q => p.same q = false) :
    Collected t i start (done ++ rest) (rest.foldl (Planner.planFile registry i t) state) := by
  induction rest generalizing done state with
  | nil =>
    rw [List.append_nil]
    exact h
  | cons relative rest ih =>
    have hsplit : done ++ relative :: rest = done ++ [relative] ++ rest := by simp
    rw [hsplit] at hfiles hapart ⊢
    refine ih (h.planFile (fun p hp => hfiles p (List.mem_append_left _ hp)) fun p hp => ?_)
      hfiles hapart
    exact (List.pairwise_append.mp (List.pairwise_append.mp hapart).1).2.2 p hp relative
      (List.mem_singleton_self _)

/-! ### Planning targets -/

/-- What is known of a plan that is being made, when some targets have been planned. -/
structure IsPlanUpTo (project : Project) (tree : Tree) (count : Nat) (p : Planner) : Prop where
  isPlan : project.IsPlan tree p.sources p.units
  before : ∀ u ∈ p.units, u.targetIndex < count

theorem IsPlanUpTo.fail {source : Option Path} {e : BuildError}
    (h : IsPlanUpTo project tree i p) (target : String) :
    IsPlanUpTo project tree (i + 1) (p.fail target source e) :=
  ⟨h.isPlan, fun u hu => Nat.lt_succ_of_lt (h.before u hu)⟩

/-- Retaining sources leaves them where and what they are. -/
theorem isAt_retainAll {sources : List Source} {k : Nat} {absolute : Path}
    (h : Source.IsAt sources k absolute) (units : List PlannedUnit) :
    Source.IsAt (retainAll units sources) k absolute :=
  h.mono fun s hs => ⟨{ s with users := s.users + units.countP (·.source == k) },
    by rw [getElem?_retainAll, hs, Option.map_some], rfl⟩

/-- Retaining sources does not change what files they are. -/
theorem map_absolute_retainAll (units : List PlannedUnit) (sources : List Source) :
    (retainAll units sources).map Source.absolute = sources.map Source.absolute := by
  apply List.ext_getElem?
  intro k
  rw [List.getElem?_map, List.getElem?_map, getElem?_retainAll, Option.map_map]
  rfl

/-- A source that is known when the files of a target were planned is fresh. -/
theorem IsPlanUpTo.isFreshSource {state : Planner × List PlannedUnit} {s : Source}
    (h : IsPlanUpTo project tree i p) (ht : project.config.targets[i]? = some t)
    (hfiles : t.enumerate tree project.skip = .ok files)
    (hcollected : Collected t i p files state) (hs : s ∈ state.1.sources) :
    project.IsFreshSource tree s := by
  obtain ⟨more, hmore, hnew⟩ := hcollected.sources
  rw [hmore] at hs
  rcases List.mem_append.mp hs with hs | hs
  · exact h.isPlan.fresh s hs
  · obtain ⟨relative, hrelative, rfl⟩ := hnew s hs
    exact ⟨rfl, t, List.mem_of_getElem? ht, ⟨files, hfiles, hrelative⟩, rfl⟩

/-- The units of a target are not counted as users before they are settled. -/
theorem IsPlanUpTo.users_eq {state : Planner × List PlannedUnit} {k : Nat} {s : Source}
    (h : IsPlanUpTo project tree i p) (hcollected : Collected t i p files state)
    (hs : state.1.sources[k]? = some s) : s.users = p.units.countP (·.source == k) := by
  obtain ⟨more, hmore, hnew⟩ := hcollected.sources
  rw [hmore] at hs
  by_cases hk : k < p.sources.length
  · rw [List.getElem?_append_left hk] at hs
    exact h.isPlan.users k s hs
  · -- the source is new, and no unit can have been planned for it before
    rw [List.getElem?_append_right (by omega)] at hs
    obtain ⟨relative, -, rfl⟩ := hnew s (List.mem_of_getElem? hs)
    refine (List.countP_eq_zero.mpr fun u hu => ?_).symm
    obtain ⟨_, _, hplanned⟩ := h.isPlan.planned u hu
    have hlt := hplanned.source.lt_length
    simp only [beq_iff_eq]
    omega

/-- Settled units of a target go to different places and come from different sources. -/
theorem IsPlanUpTo.pairwise_settled {state : Planner × List PlannedUnit}
    (h : IsPlanUpTo project tree i p) (hcollected : Collected t i p files state) :
    (p.units ++ settled (groups state.2)).Pairwise fun u v =>
      u.targetIndex = v.targetIndex →
        u.source ≠ v.source ∧ u.outputPath.same v.outputPath = false := by
  obtain ⟨hmem, hplaces⟩ := (gathered_groups state.2).settled
  refine List.pairwise_append.mpr ⟨h.isPlan.apart, ?_, ?_⟩
  · refine List.Pairwise.imp_of_mem ?_ hplaces
    intro u v hu hv hapart _
    have hsymm : Std.Symm fun u v : PlannedUnit => u.source ≠ v.source := ⟨fun _ _ h => h.symm⟩
    refine ⟨hcollected.apart.forall (hmem u hu) (hmem v hv) ?_, hapart⟩
    rintro rfl
    rw [Path.same_refl] at hapart
    simp at hapart
  · -- units that were planned before belong to other targets
    intro u hu v hv hindex
    have hu := h.before u hu
    have hv := (hcollected.candidates v (hmem v hv)).1
    omega

/-- Settling the groups of a target plans units of that target. -/
theorem IsPlanUpTo.settle {state : Planner × List PlannedUnit} (h : IsPlanUpTo project tree i p)
    (ht : project.config.targets[i]? = some t)
    (hcontains : t.sourceRoot.startsWith t.outputRoot = false)
    (hfiles : t.enumerate tree project.skip = .ok files)
    (hcollected : Collected t i p files state) :
    IsPlanUpTo project tree (i + 1) ((groups state.2).foldl (settle t.id) state.1) := by
  obtain ⟨hunits, hsources⟩ := settleAll_eq t.id state.1 (groups state.2)
  obtain ⟨hmem, -⟩ := (gathered_groups state.2).settled
  obtain ⟨more, hmore, -⟩ := hcollected.sources
  rw [hcollected.units] at hunits
  have hpre : p.sources <+: state.1.sources := ⟨more, hmore.symm⟩
  -- retaining changes neither what sources there are nor where they stand
  refine ⟨⟨fun s hs => ?_, fun k s hs => ?_, ?_, fun u hu => ?_, ?_⟩, fun u hu => ?_⟩
  · rw [hsources] at hs
    obtain ⟨k, hk⟩ := List.mem_iff_getElem?.mp hs
    rw [getElem?_retainAll] at hk
    obtain ⟨s, hs₀, rfl⟩ := Option.map_eq_some_iff.mp hk
    have hfresh := h.isFreshSource ht hfiles hcollected (List.mem_of_getElem? hs₀)
    exact hfresh
  · rw [hsources, getElem?_retainAll] at hs
    obtain ⟨s, hs₀, rfl⟩ := Option.map_eq_some_iff.mp hs
    rw [hunits, List.countP_append, ← h.users_eq hcollected hs₀]
  · rw [hsources, Source.Distinct, map_absolute_retainAll]
    exact hcollected.distinct h.isPlan.distinct
  · rw [hunits] at hu
    rw [hsources]
    rcases List.mem_append.mp hu with hu | hu
    · obtain ⟨t', relative, hplanned⟩ := h.isPlan.planned u hu
      exact ⟨t', relative, { hplanned with
        source := isAt_retainAll (hplanned.source.of_prefix hpre) _ }⟩
    · obtain ⟨hindex, htarget, relative, hrelative, hpath, hat⟩ :=
        hcollected.candidates u (hmem u hu)
      exact ⟨t, relative, hindex ▸ ht, htarget, hcontains, ⟨files, hfiles, hrelative⟩, hpath,
        isAt_retainAll hat _⟩
  · rw [hunits]
    exact h.pairwise_settled hcollected
  · rw [hunits] at hu
    rcases List.mem_append.mp hu with hu | hu
    · exact Nat.lt_succ_of_lt (h.before u hu)
    · rw [(hcollected.candidates u (hmem u hu)).1]
      exact Nat.lt_succ_self i

/-- What is known when all files of a target were planned. -/
theorem collected_planFiles [Schema.Compiler] {registry : Registry} (htree : tree.WellFormed)
    (hfiles : t.enumerate tree project.skip = .ok files) :
    Collected t i p files (files.foldl (Planner.planFile registry i t) (p, [])) := by
  have hstart : Collected t i p [] (p, []) :=
    ⟨rfl, ⟨[], (List.append_nil _).symm, by simp⟩, id, by simp, List.Pairwise.nil⟩
  refine hstart.planFiles (fun q hq => ?_) (Target.pairwise_enumerate htree hfiles)
  obtain ⟨names, hnames⟩ := Target.mem_enumerate htree hfiles hq
  exact hnames.isOutput

/-- Files that cannot be enumerated are not a collision. -/
theorem kind_of_enumerate_error {skip : List Path} {e : BuildError}
    (h : t.enumerate tree skip = .error e) : e.kind ≠ .outputCollision := by
  unfold Target.enumerate at h
  cases hroot : tree.resolve t.sourceRoot with
  | error cause =>
    simp only [hroot] at h
    obtain rfl := Except.error.inj h
    simp [BuildError.kind]
  | ok root =>
    cases hdirectory : tree.hasDirectory root with
    | false =>
      simp only [hroot, hdirectory] at h
      obtain rfl := Except.error.inj h
      simp [BuildError.kind]
    | true =>
      cases hfilter : t.filter with
      | error fault =>
        simp only [hroot, hdirectory, hfilter] at h
        obtain rfl := Except.error.inj h
        simp [BuildError.kind]
      | ok filter =>
        simp only [hroot, hdirectory, hfilter] at h
        cases h

/-- A target that cannot be planned leaves one error, which is not a collision; the files of any
other one are planned, and then their groups are settled. -/
theorem planTarget_cases [Schema.Compiler] (registry : Registry) (tree : Tree) (skip : List Path)
    (p : Planner) (i : Nat) (t : Target) :
    (∃ e, p.planTarget registry tree skip i t = p.fail t.id none e ∧ e.kind ≠ .outputCollision ∧
      ¬(t.sourceRoot.startsWith t.outputRoot = false ∧
        ∃ files, t.enumerate tree skip = .ok files)) ∨
    ∃ files state, t.sourceRoot.startsWith t.outputRoot = false ∧
      t.enumerate tree skip = .ok files ∧ state = files.foldl (planFile registry i t) (p, []) ∧
      p.planTarget registry tree skip i t =
        (groups state.2).foldl (Planner.settle t.id) state.1 := by
  unfold Planner.planTarget
  split_ifs with hcontains
  · exact Or.inl ⟨_, rfl, by simp [containment, BuildError.kind], by simp [hcontains]⟩
  · cases hfiles : t.enumerate tree skip with
    | error e => exact Or.inl ⟨e, rfl, kind_of_enumerate_error hfiles, by simp⟩
    | ok files => exact Or.inr ⟨files, _, by simpa using hcontains, rfl, rfl, rfl⟩

/-- One more target was planned. -/
theorem IsPlanUpTo.planTarget [Schema.Compiler] (htree : tree.WellFormed)
    (h : IsPlanUpTo project tree i p) (ht : project.config.targets[i]? = some t) :
    IsPlanUpTo project tree (i + 1) (p.planTarget project.registry tree project.skip i t) := by
  obtain ⟨e, heq, -⟩ | ⟨files, _, hcontains, hfiles, rfl, heq⟩ :=
    planTarget_cases project.registry tree project.skip p i t
  · rw [heq]
    exact h.fail t.id
  · rw [heq]
    exact h.settle ht hcontains hfiles (collected_planFiles htree hfiles)

theorem isPlanUpTo_empty (project : Project) (tree : Tree) :
    IsPlanUpTo project tree 0 Planner.empty :=
  ⟨⟨by simp [empty], by simp [empty], List.Pairwise.nil, by simp [empty], List.Pairwise.nil⟩,
    by simp [empty]⟩

/-- The plan that has been made. -/
def result (p : Planner) : Plan := ⟨p.sources, p.units, p.errors⟩

/-- What holds at the start and is kept with each target holds when all targets were planned. -/
theorem planTargets_induction [Schema.Compiler] {motive : Nat → Planner → Prop}
    (hstep : ∀ k t p, project.config.targets[k]? = some t → motive k p →
      motive (k + 1) (p.planTarget project.registry tree project.skip k t))
    {targets : List Target} (h : motive i p)
    (htargets : ∀ k t, targets[k]? = some t → project.config.targets[i + k]? = some t) :
    motive (i + targets.length) ((targets.zipIdx i).foldl
      (fun p (t, i) => p.planTarget project.registry tree project.skip i t) p) := by
  induction targets generalizing i p with
  | nil => exact h
  | cons t targets ih =>
    have hrest := ih (hstep i t p (htargets 0 t rfl) h) fun k t' ht' => by
      rw [Nat.add_assoc, Nat.add_comm 1]
      exact htargets (k + 1) t' ht'
    rw [Nat.add_assoc, Nat.add_comm 1] at hrest
    exact hrest

end Planner

namespace Project

variable {project : Project} {tree : Tree}

/-- What holds of nothing planned and is kept with each target holds of what a plan is made from. -/
theorem plan_induction [Schema.Compiler] {motive : Nat → Planner → Prop}
    (hempty : motive 0 Planner.empty)
    (hstep : ∀ k t p, project.config.targets[k]? = some t → motive k p →
      motive (k + 1) (p.planTarget project.registry tree project.skip k t)) :
    ∃ p, motive project.config.targets.length p ∧ project.plan tree = p.result := by
  have hall := Planner.planTargets_induction hstep hempty
    fun k t (ht : project.config.targets[k]? = some t) => by rwa [Nat.zero_add]
  rw [Nat.zero_add] at hall
  exact ⟨_, hall, rfl⟩

/-- What is known of plans is known of every plan that is made for a well-formed tree. -/
theorem isPlan_plan [Schema.Compiler] (htree : tree.WellFormed) :
    project.IsPlan tree (project.plan tree).sources (project.plan tree).units := by
  obtain ⟨p, hp, hplan⟩ := plan_induction (Planner.isPlanUpTo_empty project tree)
    fun k t p ht hp => hp.planTarget htree ht
  rw [hplan]
  exact hp.isPlan

end Project

end Filewise
