import Filewise.Output
import Filewise.Proofs.Plan.Planner
import Filewise.Schema.Standard

/-!
# Where units go

Two units of one target go to different places, and so do units of targets whose output
roots are unrelated. Nothing goes to a place that is read, as long as no output root lies
at or above a source root; for a single target this is checked when it is planned.

## Main definitions

* `Path.IsPlain`: an absolute path without double dots.
* `Path.Unrelated`: of two paths, neither lies at or under the other.
* `PlannedUnit.destinationIn`: where a unit goes.

## Main results

* `Project.plan_destinations_apart`: units go to different places.
* `Project.plan_destination_ne_source`: no unit goes where one is read.
-/

namespace Filewise

namespace Path

variable {p q base : Path}

/-- An absolute path without double dots. -/
def IsPlain (p : Path) : Prop := p.isAbsolute = true ∧ ¬p.HasUp

instance (p : Path) : Decidable p.IsPlain := inferInstanceAs (Decidable (_ ∧ _))

/-- Of two paths, neither lies at or under the other. -/
def Unrelated (p q : Path) : Prop := p.startsWith q = false ∧ q.startsWith p = false

instance (p q : Path) : Decidable (p.Unrelated q) := inferInstanceAs (Decidable (_ ∧ _))

/-- A list of components without dots is made of names. -/
theorem exists_map_name {components : List Component}
    (h : ∀ c ∈ components, c ≠ .root ∧ c ≠ .here ∧ c ≠ .up) :
    ∃ names : Location, components = names.map .name := by
  induction components with
  | nil => exact ⟨[], rfl⟩
  | cons c rest ih =>
    obtain ⟨names, rfl⟩ := ih fun c hc => h c (List.mem_cons_of_mem _ hc)
    have hc := h c List.mem_cons_self
    cases c with
    | root => exact absurd rfl hc.1
    | here => exact absurd rfl hc.2.1
    | up => exact absurd rfl hc.2.2
    | name s => exact ⟨s :: names, rfl⟩

theorem root_notMem_filterMap (segments : List (List Char)) :
    Component.root ∉ segments.filterMap innerComponent? := by
  intro h
  obtain ⟨segment, -, hsegment⟩ := List.mem_filterMap.mp h
  rcases eq_up_or_name_of_innerComponent? hsegment with h | h <;> simp at h

/-- A plain path is made of the root and names. -/
theorem IsPlain.exists_names (h : p.IsPlain) :
    ∃ names : Location, p.components = .root :: names.map .name := by
  obtain ⟨rest, -, -, hcomponents⟩ := Tree.segments_of_isAbsolute h.1
  have hmem : ∀ c ∈ rest.filterMap innerComponent?, c ≠ .root ∧ c ≠ .here ∧ c ≠ .up := by
    intro c hc
    refine ⟨?_, ?_, ?_⟩
    · rintro rfl
      exact root_notMem_filterMap rest hc
    · rintro rfl
      exact here_notMem_tail hcomponents hc
    · rintro rfl
      refine h.2 ?_
      rw [HasUp, hcomponents]
      exact List.mem_cons_of_mem _ hc
  obtain ⟨names, hnames⟩ := exists_map_name hmem
  exact ⟨names, by rw [hcomponents, hnames]⟩

/-- A relative path without double dots is made of names when it is seen from elsewhere. -/
theorem exists_names_of_relative (hp : p.isAbsolute = false) (hup : ¬p.HasUp) :
    ∃ names : Location, p.components.filter (· ≠ .here) = names.map .name := by
  apply exists_map_name
  intro c hc
  obtain ⟨hmem, hhere⟩ := List.mem_filter.mp hc
  refine ⟨?_, by simpa using hhere, ?_⟩
  · rintro rfl
    rw [← filterMap_segments_of_relative hp] at hc
    exact root_notMem_filterMap _ hc
  · rintro rfl
    exact hup hmem

/-- A relative path without double dots, seen from a plain one, is plain. -/
theorem IsPlain.exists_names_join (hbase : base.IsPlain) (hp : p.isAbsolute = false)
    (hup : ¬p.HasUp) : ∃ above names : Location, base.components = .root :: above.map .name ∧
      p.components.filter (· ≠ .here) = names.map .name ∧
      (base.join p).components = .root :: (above ++ names).map .name := by
  obtain ⟨above, habove⟩ := hbase.exists_names
  obtain ⟨names, hnames⟩ := exists_names_of_relative hp hup
  refine ⟨above, names, habove, hnames, ?_⟩
  rw [components_join (text_ne_empty_of_isAbsolute hbase.1) hp, habove, hnames, List.map_append,
    List.cons_append]

/-- Paths that are made of names lead to different places exactly if they differ. -/
theorem same_eq_false_iff_of_names {names names' : Location}
    (h : p.components = .root :: names.map .name) (h' : q.components = .root :: names'.map .name) :
    p.same q = false ↔ p.location ≠ q.location := by
  rw [← Bool.not_eq_true, same_iff, location_eq h, location_eq h', h, h']
  constructor
  · rintro hne rfl
    exact hne rfl
  · intro hne heq
    exact hne (map_name_injective (List.cons.inj heq).2)

theorem startsWith_iff_of_names {names names' : Location}
    (h : p.components = .root :: names.map .name) (h' : q.components = .root :: names'.map .name) :
    p.startsWith q = true ↔ names' <+: names := by
  rw [startsWith_iff, h, h', List.cons_prefix_cons, and_iff_right rfl, List.prefix_map_iff]
  constructor
  · rintro ⟨names'', hpre, heq⟩
    rwa [map_name_injective heq]
  · exact fun hpre => ⟨names', hpre, rfl⟩

/-- What lies at or under both of two paths makes one of them lie at or under the other. -/
theorem not_unrelated_of_prefix {components : List Component} (hp : p.components <+: components)
    (hq : q.components <+: components) : ¬p.Unrelated q := by
  rintro ⟨hpq, hqp⟩
  rcases List.prefix_or_prefix_of_prefix hp hq with h | h
  · rw [startsWith_iff.mpr h] at hqp
    simp at hqp
  · rw [startsWith_iff.mpr h] at hpq
    simp at hpq

end Path

/-- Where a unit goes that was planned for a target. -/
def PlannedUnit.destinationIn (u : PlannedUnit) (t : Target) : Path :=
  Outputs.destination t.outputRoot u.outputPath

namespace Project

variable {project : Project} {tree : Tree} {sources : List Source} {units : List PlannedUnit}
  {t t' : Target} {u v : PlannedUnit} {relative relative' : Path}

/-! ### Units go to different places -/

theorem PlannedFrom.isOutput (h : project.PlannedFrom tree sources t relative u)
    (htree : tree.WellFormed) : u.outputPath.IsOutput := by
  obtain ⟨names, hnames⟩ := h.enumerated.exists_names htree
  rw [h.outputPath]
  exact OutputPath.isOutput_ofSteps hnames.isOutput u.steps

theorem components_destinationIn (ht : t.outputRoot.isAbsolute = true)
    (hu : u.outputPath.isAbsolute = false) : (u.destinationIn t).components =
      t.outputRoot.components ++ u.outputPath.components.filter (· ≠ .here) :=
  Path.components_join (Path.text_ne_empty_of_isAbsolute ht) hu

/-- A destination is absolute when the output root is. -/
theorem isAbsolute_destinationIn (ht : t.outputRoot.isAbsolute = true)
    (hu : u.outputPath.isAbsolute = false) : (u.destinationIn t).isAbsolute = true :=
  Path.isAbsolute_join ht hu

/-- Two units that a plan lists, whether of one target or of targets with unrelated output
roots, go to different places. -/
theorem IsPlan.pairwise_destinationIn (h : project.IsPlan tree sources units)
    (htree : tree.WellFormed)
    (hroots : ∀ t ∈ project.config.targets, t.outputRoot.isAbsolute = true) :
    units.Pairwise fun u v => ∀ t t', project.config.targets[u.targetIndex]? = some t →
      project.config.targets[v.targetIndex]? = some t' →
      u.targetIndex = v.targetIndex ∨ t.outputRoot.Unrelated t'.outputRoot →
      (u.destinationIn t).same (v.destinationIn t') = false := by
  refine List.Pairwise.imp_of_mem ?_ h.apart
  intro u v hu hv hapart t t' ht ht' hrelated
  obtain ⟨_, _, hplanned⟩ := h.planned u hu
  obtain ⟨_, _, hplanned'⟩ := h.planned v hv
  have houtput := hplanned.isOutput htree
  have houtput' := hplanned'.isOutput htree
  rw [← Bool.not_eq_true]
  intro hsame
  -- within a target the output paths differ, across targets the output roots keep apart
  rcases hrelated with hindex | hunrelated
  · obtain rfl : t = t' := Option.some_inj.mp (by rw [← ht, ← ht', hindex])
    have := houtput.same_of_join_same houtput' hsame
    rw [(hapart hindex).2] at this
    simp at this
  · have hroot := hroots t (List.mem_of_getElem? ht)
    have hroot' := hroots t' (List.mem_of_getElem? ht')
    rw [Path.same_iff] at hsame
    have hpre : t.outputRoot.components <+: (u.destinationIn t).components := by
      rw [components_destinationIn hroot houtput.relative]
      exact List.prefix_append _ _
    have hpre' : t'.outputRoot.components <+: (u.destinationIn t).components := by
      rw [hsame, components_destinationIn hroot' houtput'.relative]
      exact List.prefix_append _ _
    exact Path.not_unrelated_of_prefix hpre hpre' hunrelated

/-- Two units of one target, and units of targets with unrelated output roots, have different
destinations. Without double dots these lead to different locations. -/
theorem plan_destinations_apart [Schema.Compiler] (htree : tree.WellFormed)
    (hroots : ∀ t ∈ project.config.targets, t.outputRoot.isAbsolute = true) :
    (∀ u ∈ (project.plan tree).units,
      ∃ t, project.config.targets[u.targetIndex]? = some t ∧ u.target = t.id) ∧
    (project.plan tree).units.Pairwise fun u v => ∀ t t',
      project.config.targets[u.targetIndex]? = some t →
      project.config.targets[v.targetIndex]? = some t' →
      u.targetIndex = v.targetIndex ∨ t.outputRoot.Unrelated t'.outputRoot →
      (u.destinationIn t).same (v.destinationIn t') = false ∧
      (¬(u.destinationIn t).HasUp → ¬(v.destinationIn t').HasUp →
        (u.destinationIn t).location ≠ (v.destinationIn t').location) := by
  have hplan := project.isPlan_plan htree
  constructor
  · intro u hu
    obtain ⟨t, _, hplanned⟩ := hplan.planned u hu
    exact ⟨t, hplanned.target?, hplanned.target⟩
  · refine List.Pairwise.imp_of_mem ?_ (hplan.pairwise_destinationIn htree hroots)
    intro u v hu hv hapart t t' ht ht' hrelated
    have hne := hapart t t' ht ht' hrelated
    refine ⟨hne, fun hup hup' => ?_⟩
    obtain ⟨_, _, hplanned⟩ := hplan.planned u hu
    obtain ⟨_, _, hplanned'⟩ := hplan.planned v hv
    have habs := isAbsolute_destinationIn (hroots t (List.mem_of_getElem? ht))
      (hplanned.isOutput htree).relative
    have habs' := isAbsolute_destinationIn (hroots t' (List.mem_of_getElem? ht'))
      (hplanned'.isOutput htree).relative
    obtain ⟨names, hnames⟩ := Path.IsPlain.exists_names ⟨habs, hup⟩
    obtain ⟨names', hnames'⟩ := Path.IsPlain.exists_names ⟨habs', hup'⟩
    exact (Path.same_eq_false_iff_of_names hnames hnames').mp hne

/-- Where the units of a plan go, one after the other. -/
def destinations (project : Project) (p : Plan) : List Path :=
  p.units.filterMap fun u => (project.config.targets[u.targetIndex]?).map u.destinationIn

/-- A tree with a single file in a directory. -/
def oneFileTree : Tree := ⟨[(["src"], .directory), (["src", "a.js"], .file ⟨#[65]⟩)], []⟩

/-- Two targets that copy one source tree to two places. -/
def twoOutputs : Project :=
  ⟨⟨none, [Target.new "cjs" ⟨"/src"⟩ ⟨"/cjs"⟩, Target.new "esm" ⟨"/src"⟩ ⟨"/src/esm"⟩]⟩,
    Registry.empty, 1⟩

theorem twoOutputs_destinations_apart :
    twoOutputs.destinations (twoOutputs.plan oneFileTree) = [⟨"/cjs/a.js"⟩, ⟨"/src/esm/a.js"⟩] ∧
    (∀ u ∈ (twoOutputs.plan oneFileTree).units,
      ∃ t, twoOutputs.config.targets[u.targetIndex]? = some t ∧ u.target = t.id) ∧
    (twoOutputs.plan oneFileTree).units.Pairwise fun u v => ∀ t t',
      twoOutputs.config.targets[u.targetIndex]? = some t →
      twoOutputs.config.targets[v.targetIndex]? = some t' →
      u.targetIndex = v.targetIndex ∨ t.outputRoot.Unrelated t'.outputRoot →
      (u.destinationIn t).same (v.destinationIn t') = false ∧
      (¬(u.destinationIn t).HasUp → ¬(v.destinationIn t').HasUp →
        (u.destinationIn t).location ≠ (v.destinationIn t').location) :=
  ⟨by decide +kernel, plan_destinations_apart (by decide +kernel) (by decide +kernel)⟩

/-- Two targets that copy one source tree to the same place. -/
def sharedOutput : Project :=
  ⟨⟨none, [Target.new "cjs" ⟨"/src"⟩ ⟨"/out"⟩, Target.new "esm" ⟨"/src"⟩ ⟨"/out"⟩]⟩,
    Registry.empty, 1⟩

/-- Units of targets that share an output root can go to the same place. -/
theorem sharedOutput_destinations_meet :
    sharedOutput.config.fault? = none ∧ oneFileTree.WellFormed ∧
    (∀ t ∈ sharedOutput.config.targets,
      t.sourceRoot.isAbsolute = true ∧ t.outputRoot.isAbsolute = true) ∧
    ¬(sharedOutput.destinations (sharedOutput.plan oneFileTree)).Pairwise
      fun d d' => d.same d' = false := by
  decide +kernel

/-! ### No unit goes where one is read -/

/-- The names that lead to the source of a unit, below the source root of its target. -/
theorem PlannedFrom.exists_source_names (h : project.PlannedFrom tree sources t relative u)
    (htree : tree.WellFormed) (hroot : t.sourceRoot.IsPlain) :
    ∃ above names s, sources[u.source]? = some s ∧ t.IsEnumerated tree project.skip relative names ∧
      t.sourceRoot.components = .root :: above.map .name ∧
      s.absolute.components = .root :: (above ++ names).map .name := by
  obtain ⟨names, hnames⟩ := h.enumerated.exists_names htree
  obtain ⟨s, hs, hsame⟩ := h.source
  obtain ⟨above, habove⟩ := hroot.exists_names
  refine ⟨above, names, s, hs, hnames, habove, ?_⟩
  rw [Path.same_iff.mp hsame, hnames.components_join, hnames.components_eq, habove,
    List.map_append, List.cons_append]

/-- What lies at or under an output root below a source root has to be skipped, unless the output
root contains the source root. -/
theorem isSkipped_of_prefix {names above outputNames : Location} {skip : List Path} {output : Path}
    (hnames : ∀ s ∈ names, Path.IsName s) (houtput : output ∈ skip)
    (hroot : t.sourceRoot.components = .root :: above.map .name)
    (houtputNames : output.components = .root :: outputNames.map .name)
    (hcontains : ¬outputNames <+: above) (hpre : outputNames <+: above ++ names) :
    t.isSkipped skip names = true := by
  have hinside : above <+: outputNames :=
    (List.prefix_or_prefix_of_prefix hpre (List.prefix_append above names)).resolve_left hcontains
  have hjoin : (t.sourceRoot.join (Path.ofNames names)).components =
      .root :: (above ++ names).map .name := by
    rw [Path.components_join_of_names (Path.components_ofNames hnames), hroot, List.map_append,
      List.cons_append]
  have hne : output.same t.sourceRoot = false := by
    rw [Path.same_eq_false_iff_of_names houtputNames hroot, Path.location_eq houtputNames,
      Path.location_eq hroot]
    rintro rfl
    exact hcontains List.prefix_rfl
  refine List.any_eq_true.mpr ⟨output, houtput, ?_⟩
  rw [(Path.startsWith_iff_of_names houtputNames hroot).mpr hinside, hne,
    (Path.startsWith_iff_of_names hjoin houtputNames).mpr hpre]
  rfl

/-- A file that is enumerated for a target does not lie at or under an output root, unless the
output root contains the source root. -/
theorem not_prefix_of_isEnumerated {names above outputNames : Location} {skip : List Path}
    {output : Path} (h : t.IsEnumerated tree skip relative names) (houtput : output ∈ skip)
    (hroot : t.sourceRoot.components = .root :: above.map .name)
    (houtputNames : output.components = .root :: outputNames.map .name)
    (hcontains : ¬outputNames <+: above) : ¬outputNames <+: above ++ names := by
  intro hpre
  -- if such a file lay there, the walk would leave it out
  have hskipped := isSkipped_of_prefix h.isName houtput hroot houtputNames hcontains hpre
  rw [h.notSkipped] at hskipped
  simp at hskipped

/-- Nothing that is planned goes to, or above, a place where something is read, unless the
output root lies at or above the source root of another target. -/
theorem IsPlan.not_destination_prefix_source (h : project.IsPlan tree sources units)
    (htree : tree.WellFormed)
    (hroots : ∀ t ∈ project.config.targets, t.sourceRoot.IsPlain ∧ t.outputRoot.IsPlain)
    (hu : u ∈ units) (hv : v ∈ units) (hup : ¬u.outputPath.HasUp)
    (ht : project.config.targets[u.targetIndex]? = some t)
    (ht' : project.config.targets[v.targetIndex]? = some t')
    (hothers : u.targetIndex ≠ v.targetIndex → t'.sourceRoot.startsWith t.outputRoot = false) :
    ∃ destination source s, sources[v.source]? = some s ∧
      (u.destinationIn t).components = .root :: destination.map .name ∧
      s.absolute.components = .root :: source.map .name ∧ ¬destination <+: source := by
  obtain ⟨_, _, hplanned⟩ := h.planned u hu
  obtain ⟨_, _, hplanned'⟩ := h.planned v hv
  obtain rfl := Option.some_inj.mp (hplanned.target?.symm.trans ht)
  obtain rfl := Option.some_inj.mp (hplanned'.target?.symm.trans ht')
  have hroot := (hroots _ (List.mem_of_getElem? ht)).2
  obtain ⟨outputNames, names, houtputNames, -, hdestination⟩ :=
    hroot.exists_names_join (hplanned.isOutput htree).relative hup
  obtain ⟨above, sourceNames, s, hs, henumerated, habove, hsource⟩ :=
    hplanned'.exists_source_names htree (hroots _ (List.mem_of_getElem? ht')).1
  refine ⟨outputNames ++ names, above ++ sourceNames, s, hs, hdestination, hsource, ?_⟩
  intro hpre
  refine not_prefix_of_isEnumerated henumerated
    (List.mem_map.mpr ⟨_, List.mem_of_getElem? ht, rfl⟩) habove houtputNames ?_
    ((List.prefix_append _ _).trans hpre)
  intro hcontains
  have hstarts := (Path.startsWith_iff_of_names habove houtputNames).mpr hcontains
  -- for its own target this was checked when the unit was planned
  by_cases hindex : u.targetIndex = v.targetIndex
  · obtain rfl := Option.some_inj.mp (ht.symm.trans (hindex ▸ ht'))
    rw [hplanned.apart] at hstarts
    simp at hstarts
  · rw [hothers hindex] at hstarts
    simp at hstarts

/-- No unit goes where the source of a unit is read, unless its output root lies at or above
the source root of another target. -/
theorem plan_destination_ne_source [Schema.Compiler] (htree : tree.WellFormed)
    (hroots : ∀ t ∈ project.config.targets, t.sourceRoot.IsPlain ∧ t.outputRoot.IsPlain)
    (hu : u ∈ (project.plan tree).units) (hv : v ∈ (project.plan tree).units)
    (hup : ¬u.outputPath.HasUp) (ht : project.config.targets[u.targetIndex]? = some t)
    (ht' : project.config.targets[v.targetIndex]? = some t')
    (hothers : u.targetIndex ≠ v.targetIndex → t'.sourceRoot.startsWith t.outputRoot = false) :
    (u.destinationIn t).location ≠ ((project.plan tree).sourceOf v).absolute.location := by
  obtain ⟨destination, source, s, hs, hdestination, hsource, hne⟩ :=
    (project.isPlan_plan htree).not_destination_prefix_source htree hroots hu hv hup ht ht' hothers
  rw [Plan.sourceOf, hs, Option.getD_some, Path.location_eq hdestination, Path.location_eq hsource]
  rintro rfl
  exact hne List.prefix_rfl

theorem twoOutputs_units_ne_nil : (twoOutputs.plan oneFileTree).units ≠ [] := by decide +kernel

/-- The unit of the first target. -/
def firstOfTwo : PlannedUnit := (twoOutputs.plan oneFileTree).units.head twoOutputs_units_ne_nil

/-- The unit of the second target. -/
def secondOfTwo : PlannedUnit :=
  (twoOutputs.plan oneFileTree).units.getLast twoOutputs_units_ne_nil

theorem twoOutputs_targets :
    twoOutputs.config.targets[firstOfTwo.targetIndex]? =
      some (Target.new "cjs" ⟨"/src"⟩ ⟨"/cjs"⟩) ∧
    twoOutputs.config.targets[secondOfTwo.targetIndex]? =
      some (Target.new "esm" ⟨"/src"⟩ ⟨"/src/esm"⟩) := by
  have hfirst : firstOfTwo.targetIndex = 0 := by decide +kernel
  have hsecond : secondOfTwo.targetIndex = 1 := by decide +kernel
  rw [hfirst, hsecond]
  exact ⟨rfl, rfl⟩

theorem twoOutputs_destination_ne_source :
    (secondOfTwo.destinationIn (Target.new "esm" ⟨"/src"⟩ ⟨"/src/esm"⟩)).location ≠
      ((twoOutputs.plan oneFileTree).sourceOf firstOfTwo).absolute.location :=
  plan_destination_ne_source (by decide +kernel) (by decide +kernel) (List.getLast_mem _)
    (List.head_mem _) (by decide +kernel) twoOutputs_targets.2 twoOutputs_targets.1
    fun _ => by decide +kernel

/-- Two targets, of which the second goes to a place above the source tree of the first. -/
def outputAboveSource : Project :=
  ⟨⟨none, [Target.new "esm" ⟨"/a/src"⟩ ⟨"/a/dist"⟩, Target.new "site" ⟨"/b/lib"⟩ ⟨"/a"⟩]⟩,
    Registry.empty, 1⟩

/-- A tree in which a file of one source tree has the place of a file of another one, seen from
above. -/
def nestedTree : Tree :=
  ⟨[(["a"], .directory), (["a", "src"], .directory), (["a", "src", "a.js"], .file ⟨#[65]⟩),
    (["b"], .directory), (["b", "lib"], .directory), (["b", "lib", "src"], .directory),
    (["b", "lib", "src", "a.js"], .file ⟨#[66]⟩)], []⟩

/-- A target whose output root is its source root, spelled otherwise. -/
def dottedRoot : Project :=
  ⟨⟨none, [Target.new "esm" ⟨"/src"⟩ ⟨"/tmp/../src"⟩]⟩, Registry.empty, 1⟩

/-- A tree in which both spellings lead to the source tree. -/
def dottedTree : Tree :=
  ⟨[(["src"], .directory), (["src", "a.js"], .file ⟨#[65]⟩), (["tmp"], .directory)], []⟩

/-- A transformer that keeps texts and replaces an extension by a way out of the output root. -/
def escape : Transformer :=
  (Transformer.new "escape" fun _ => .ok fun text => .ok text).withExtensionRemap "x"
    "/../../two/b.js"

/-- Two targets, of which the first puts its output where the second reads. -/
def escaping : Project :=
  ⟨⟨none, [(Target.new "one" ⟨"/one"⟩ ⟨"/out1"⟩).withChain "x" [.bare "escape"],
    Target.new "two" ⟨"/two"⟩ ⟨"/out2"⟩]⟩, ⟨[("escape", escape)]⟩, 1⟩

/-- A tree with a source for each of the targets. -/
def escapingTree : Tree :=
  ⟨[(["one"], .directory), (["one", "a.x"], .file ⟨#[65]⟩), (["two"], .directory),
    (["two", "b.js"], .file ⟨#[66]⟩)], []⟩

/-- A project with a valid configuration and absolute roots, of which a unit goes where one is
read. -/
def OverwritesSource [Schema.Compiler] (project : Project) (tree : Tree) : Prop :=
  project.config.fault? = none ∧ tree.WellFormed ∧
  (∀ t ∈ project.config.targets,
    t.sourceRoot.isAbsolute = true ∧ t.outputRoot.isAbsolute = true) ∧
  ∃ d ∈ project.destinations (project.plan tree), ∃ u ∈ (project.plan tree).units,
    d.location = ((project.plan tree).sourceOf u).absolute.location

instance [Schema.Compiler] (project : Project) (tree : Tree) :
    Decidable (project.OverwritesSource tree) :=
  inferInstanceAs (Decidable (_ ∧ _))

/-- A unit can go where one is read if an output root lies above the source root of another
target, and also if there are double dots in a root or in an output path. -/
theorem outputAboveSource_destination_is_source :
    outputAboveSource.OverwritesSource nestedTree ∧ dottedRoot.OverwritesSource dottedTree ∧
      escaping.OverwritesSource escapingTree := by
  decide +kernel

end Project

end Filewise
