import Filewise.Proofs.Glob.Filter
import Filewise.Proofs.Source.Selection

/-!
# The globs of a target

Globs to leave out act as a set: their order does not matter, and what one of them leaves out by
itself stays left out. Globs to take do so as long as none of them excludes: then the files are
those that are taken for one of the globs or another. A glob to take that starts with an exclamation
mark excludes, and its place among the others matters for what they take as well.

## Main definitions

* `Target.Disputes`: globs to take are at odds over a path.
* `Target.GlobLaws`: in which respects globs act as sets.

## Main results

* `Target.filter_eq_ok_iff`: the rules that the globs of a target describe.
* `Target.HasValidGlobs.drops_includes_perm_iff`: when the order of the globs to take does not
  matter.
* `Target.HasValidGlobs.enumerates_includes_iff`: what is taken for plain globs.
* `Target.HasValidGlobs.enumerates_excludes_iff`: what is left out.
* `Target.globs_act_as_sets`: globs to leave out act as a set, and so do globs to take that are not
  at odds.
-/

namespace Filewise

open Glob (Rule LineMatches IsPlain)

namespace Target

variable {t t' : Target} {tree : Tree} {filter filter' : Glob.Filter} {skip files : List Path}
  {root names : Location} {isDirectory : Bool} {mark g : String}
  {globs includes excludes : List String} {rules : List Rule} {p : Path}

/-! ### The rules of globs -/

/-- Rules are read glob by glob, and all globs have to be valid. -/
theorem rulesFor_eq_ok_iff : rulesFor mark globs = .ok rules ↔
    (∀ g ∈ globs, ∃ rule?, Rule.parse? (mark ++ g) = .ok rule?) ∧
      rules = globs.filterMap fun g => Glob.ruleOf? (mark ++ g) := by
  rw [rulesFor, ← List.nil_append (globs.filterMap _)]
  -- the rules that have been read already come first
  generalize ([] : List Rule) = before
  induction globs generalizing before with
  | nil => simp [pure, Except.pure, eq_comm]
  | cons g globs ih =>
    rw [List.foldlM_cons]
    cases hparse : Rule.parse? (mark ++ g) with
    | error fault => simp [hparse, bind, Except.bind]
    | ok rule? =>
      have hrule : Glob.ruleOf? (mark ++ g) = rule? := by rw [Glob.ruleOf?, hparse]; rfl
      refine (ih (before ++ rule?.toList)).trans ?_
      rw [List.forall_mem_cons, hparse, List.filterMap_cons, hrule]
      cases rule? <;> simp

/-- The rules of the globs to take. -/
def includeRules (t : Target) : List Rule := t.includes.filterMap Glob.ruleOf?

/-- The rules of the globs to leave out. -/
def excludeRules (t : Target) : List Rule :=
  t.excludes.filterMap fun g => Glob.ruleOf? ("!" ++ g)

/-- The rules of all globs in order. -/
def globFilter (t : Target) : Glob.Filter := ⟨t.includeRules ++ t.excludeRules⟩

/-- Every glob of a target can be read as a line. -/
structure HasValidGlobs (t : Target) : Prop where
  includes : ∀ g ∈ t.includes, ∃ rule?, Rule.parse? g = .ok rule?
  excludes : ∀ g ∈ t.excludes, ∃ rule?, Rule.parse? ("!" ++ g) = .ok rule?

/-- The filter of a target has the rules of its globs, if all of them are valid. -/
theorem filter_eq_ok_iff : t.filter = .ok filter ↔ t.HasValidGlobs ∧ filter = t.globFilter := by
  have hincludes := @rulesFor_eq_ok_iff "" t.includes
  have hexcludes := @rulesFor_eq_ok_iff "!" t.excludes
  simp only [String.empty_append] at hincludes
  rw [Target.filter]
  constructor
  · intro h
    cases hinclude : rulesFor "" t.includes with
    | error e => simp [hinclude, bind, Except.bind] at h
    | ok includeRules =>
      cases hexclude : rulesFor "!" t.excludes with
      | error e => simp [hinclude, hexclude, bind, Except.bind] at h
      | ok excludeRules =>
        obtain ⟨hvalid, rfl⟩ := hincludes.mp hinclude
        obtain ⟨hvalid', rfl⟩ := hexcludes.mp hexclude
        simp only [hinclude, hexclude] at h
        exact ⟨⟨hvalid, hvalid'⟩, (Except.ok.inj h).symm⟩
  · rintro ⟨⟨hvalid, hvalid'⟩, rfl⟩
    rw [hincludes.mpr ⟨hvalid, rfl⟩, hexcludes.mpr ⟨hvalid', rfl⟩]
    rfl

theorem HasValidGlobs.filter_eq (h : t.HasValidGlobs) : t.filter = .ok t.globFilter :=
  filter_eq_ok_iff.mpr ⟨h, rfl⟩

/-- Some of the globs of a target are as valid as all of them. -/
theorem HasValidGlobs.of_subset (h : t.HasValidGlobs) (hincludes : includes ⊆ t.includes)
    (hexcludes : excludes ⊆ t.excludes) : { t with includes, excludes }.HasValidGlobs :=
  ⟨fun g hg => h.includes g (hincludes hg), fun g hg => h.excludes g (hexcludes hg)⟩

theorem HasValidGlobs.isExclude (h : t.HasValidGlobs) {r : Rule} (hr : r ∈ t.excludeRules) :
    r.isExclude = true := by
  obtain ⟨g, hg, hrule⟩ := List.mem_filterMap.mp hr
  obtain ⟨rule?, hparse⟩ := h.excludes g hg
  rw [Glob.ruleOf?_eq_some_iff, hparse] at hrule
  obtain ⟨r', hr', hexclude⟩ := Rule.exists_of_exclude hparse
  rw [Except.ok.inj hrule] at hr'
  rwa [Option.some.inj hr']

/-- Some rule matches a path if some line does that describes one of the rules. -/
theorem any_matches_filterMap (line : String → String) :
    (globs.filterMap fun g => Glob.ruleOf? (line g)).any (fun r => r.matches names isDirectory) =
      true ↔ ∃ g ∈ globs, LineMatches (line g) names isDirectory := by
  simp only [List.any_eq_true, List.mem_filterMap, LineMatches]
  constructor
  · rintro ⟨r, ⟨g, hg, hr⟩, hmatches⟩
    exact ⟨g, hg, r, hr, hmatches⟩
  · rintro ⟨g, hg, r, hr, hmatches⟩
    exact ⟨r, ⟨g, hg, hr⟩, hmatches⟩

/-- A path is dropped if some glob to leave out matches it, or else if the globs to take drop it. -/
theorem HasValidGlobs.drops_iff (h : t.HasValidGlobs) :
    t.globFilter.drops names isDirectory = true ↔
      (∃ g ∈ t.excludes, LineMatches ("!" ++ g) names isDirectory) ∨
        (⟨t.includeRules⟩ : Glob.Filter).drops names isDirectory = true := by
  rw [globFilter, Glob.Filter.drops_append fun r hr => h.isExclude hr, Bool.or_eq_true,
    excludeRules, any_matches_filterMap]

/-! ### The order of globs -/

/-- Globs to take are at odds over a path: some that excludes matches it, some other one does, too,
and no glob to leave out settles the matter. -/
structure Disputes (t : Target) (names : Location) (isDirectory : Bool) : Prop where
  taken : ∃ g ∈ t.includes, g.toList.head? ≠ some '!' ∧ LineMatches g names isDirectory
  refused : ∃ g ∈ t.includes, g.toList.head? = some '!' ∧ LineMatches g names isDirectory
  not_excluded : ∀ g ∈ t.excludes, ¬LineMatches ("!" ++ g) names isDirectory

/-- A rule of a glob to take excludes if the glob starts with an exclamation mark. -/
theorem exists_mem_includeRules_iff {isExclude : Bool} :
    (∃ r ∈ t.includeRules, r.isExclude = isExclude ∧ r.matches names isDirectory = true) ↔
      ∃ g ∈ t.includes, (g.toList.head? == some '!') = isExclude ∧
        LineMatches g names isDirectory := by
  constructor
  · rintro ⟨r, hr, rfl, hmatches⟩
    obtain ⟨g, hg, hrule⟩ := List.mem_filterMap.mp hr
    exact ⟨g, hg, (Glob.isExclude_of_ruleOf? hrule).symm, r, hrule, hmatches⟩
  · rintro ⟨g, hg, rfl, r, hrule, hmatches⟩
    exact ⟨r, List.mem_filterMap.mpr ⟨g, hg, hrule⟩, Glob.isExclude_of_ruleOf? hrule, hmatches⟩

/-- Globs to take are at odds if their rules are and no glob to leave out settles the matter. -/
theorem disputes_iff : t.Disputes names isDirectory ↔
    (⟨t.includeRules⟩ : Glob.Filter).IsDisputed names isDirectory ∧
      ¬∃ g ∈ t.excludes, LineMatches ("!" ++ g) names isDirectory := by
  simp only [Glob.Filter.IsDisputed, exists_mem_includeRules_iff, beq_eq_false_iff_ne, beq_iff_eq,
    not_exists, not_and]
  exact ⟨fun h => ⟨⟨h.taken, h.refused⟩, h.not_excluded⟩, fun h => ⟨h.1.1, h.1.2, h.2⟩⟩

/-- The order of the globs to leave out does not matter. -/
theorem HasValidGlobs.drops_excludes_perm (h : t.HasValidGlobs)
    (hperm : excludes.Perm t.excludes) :
    { t with excludes }.globFilter.drops names isDirectory =
      t.globFilter.drops names isDirectory := by
  have h' := h.of_subset (List.Subset.refl _) hperm.subset
  rw [Bool.eq_iff_iff, h'.drops_iff, h.drops_iff]
  simp only [hperm.mem_iff]
  rfl

/-- Reordering the globs to take leaves alone the paths over which they are not at odds. -/
theorem HasValidGlobs.drops_includes_perm (h : t.HasValidGlobs)
    (hperm : includes.Perm t.includes) (hdisputes : ¬t.Disputes names isDirectory) :
    { t with includes }.globFilter.drops names isDirectory =
      t.globFilter.drops names isDirectory := by
  have h' := h.of_subset hperm.subset (List.Subset.refl _)
  rw [Bool.eq_iff_iff, h'.drops_iff, h.drops_iff]
  -- where a glob to leave out matches, those to take do not matter
  by_cases hexcluded : ∃ g ∈ t.excludes, LineMatches ("!" ++ g) names isDirectory
  · simp only [hexcluded, true_or]
  · have hundisputed : ¬(⟨t.includeRules⟩ : Glob.Filter).IsDisputed names isDirectory :=
      fun hdisputed => hdisputes (disputes_iff.mpr ⟨hdisputed, hexcluded⟩)
    rw [includeRules, includeRules,
      Glob.Filter.drops_perm (hperm.filterMap Glob.ruleOf?) hundisputed]

/-- A glob to take that is put last decides on what it matches and no glob to leave out does. -/
theorem HasValidGlobs.exists_perm_drops (h : t.HasValidGlobs) (hg : g ∈ t.includes)
    (hmatches : LineMatches g names isDirectory)
    (hexcluded : ∀ g ∈ t.excludes, ¬LineMatches ("!" ++ g) names isDirectory) :
    ∃ includes, includes.Perm t.includes ∧
      { t with includes }.globFilter.drops names isDirectory = (g.toList.head? == some '!') := by
  have hperm : (t.includes.erase g ++ [g]).Perm t.includes :=
    (List.perm_append_singleton g _).trans (List.perm_cons_erase hg).symm
  refine ⟨_, hperm, ?_⟩
  obtain ⟨r, hrule, hmatches⟩ := hmatches
  have hrules : { t with includes := t.includes.erase g ++ [g] }.includeRules =
      (t.includes.erase g).filterMap Glob.ruleOf? ++ [r] := by
    simp [includeRules, hrule]
  rw [Bool.eq_iff_iff, (h.of_subset hperm.subset (List.Subset.refl _)).drops_iff, hrules,
    Glob.Filter.drops_concat hmatches, Glob.isExclude_of_ruleOf? hrule, or_iff_right]
  rintro ⟨g', hg', hmatches'⟩
  exact hexcluded g' hg' hmatches'

/-- The order of the globs to take matters exactly for the paths over which they are at odds. -/
theorem HasValidGlobs.drops_includes_perm_iff (h : t.HasValidGlobs) :
    (∀ includes, includes.Perm t.includes →
      { t with includes }.globFilter.drops names isDirectory =
        t.globFilter.drops names isDirectory) ↔ ¬t.Disputes names isDirectory := by
  constructor
  · rintro hsame ⟨⟨g, hg, hplain, hmatches⟩, ⟨g', hg', hmark, hmatches'⟩, hexcluded⟩
    -- each of the two decides in its own way if it is put last
    obtain ⟨_, hperm, hdrops⟩ := h.exists_perm_drops hg hmatches hexcluded
    obtain ⟨_, hperm', hdrops'⟩ := h.exists_perm_drops hg' hmatches' hexcluded
    rw [hsame _ hperm, beq_false_of_ne hplain] at hdrops
    rw [hsame _ hperm', hdrops, hmark] at hdrops'
    simp at hdrops'
  · exact fun hdisputes includes hperm => h.drops_includes_perm hperm hdisputes

/-! ### The files that are enumerated -/

/-- A path is among the files that are enumerated. -/
def Enumerates (t : Target) (tree : Tree) (skip : List Path) (p : Path) : Prop :=
  ∃ files, t.enumerate tree skip = .ok files ∧ p ∈ files

/-- A file that is selected stays selected for globs that drop neither it nor the directories above
it if the others do not. -/
theorem Selects.of_drops (h : t.Selects tree filter skip root names) (htree : tree.WellFormed)
    (hsource : t'.sourceRoot = t.sourceRoot)
    (hfile : tree.hasFile (root ++ names) = true → filter.drops names false = false →
      filter'.drops names false = false)
    (hdirectory : ∀ above, tree.hasDirectory (root ++ above) = true →
      filter.drops above true = false → filter'.drops above true = false) :
    t'.Selects tree filter' skip root names := by
  refine ⟨h.hasFile, hfile h.hasFile h.kept, fun above below heq habove hbelow => ?_,
    by simpa only [Covers, hsource] using h.notCovered⟩
  refine hdirectory above ?_ (h.entered above below heq habove hbelow)
  obtain ⟨content, hcontent⟩ := Tree.hasFile_iff.mp h.hasFile
  rw [heq, ← List.append_assoc] at hcontent
  exact htree.toClosed.hasDirectory_of_append hbelow (by rw [hcontent]; rfl)

/-- Nothing is enumerated if the source root leads to no directory. -/
theorem enumerate_of_not_hasDirectory
    (h : ∀ root, tree.resolve t.sourceRoot = .ok root → tree.hasDirectory root = false) :
    t.enumerate tree skip =
      .error (.io t.sourceRoot (.other "source root is not a directory")) := by
  unfold enumerate
  cases hroot : tree.resolve t.sourceRoot with
  | error e => rfl
  | ok root =>
    dsimp only
    rw [h root hroot]
    rfl

theorem HasValidGlobs.enumerates_iff (h : t.HasValidGlobs) (htree : tree.WellFormed) :
    t.Enumerates tree skip p ↔ ∃ root names, tree.resolve t.sourceRoot = .ok root ∧
      tree.hasDirectory root = true ∧ p = .ofNames names ∧
      t.Selects tree t.globFilter skip root names := by
  constructor
  · rintro ⟨files, hfiles, hp⟩
    obtain ⟨root, filter, hroot, hdirectory, -, -⟩ := enumerate_eq_ok_iff.mp hfiles
    obtain ⟨files', hfiles', -, hmem⟩ := exists_files htree hroot hdirectory h.filter_eq skip
    rw [hfiles] at hfiles'
    obtain rfl := Except.ok.inj hfiles'
    obtain ⟨names, rfl, hselects⟩ := (hmem p).mp hp
    exact ⟨root, names, hroot, hdirectory, rfl, hselects⟩
  · rintro ⟨root, names, hroot, hdirectory, rfl, hselects⟩
    obtain ⟨files, hfiles, -, hmem⟩ := exists_files htree hroot hdirectory h.filter_eq skip
    exact ⟨files, hfiles, (hmem _).mpr ⟨names, rfl, hselects⟩⟩

/-- Globs that agree on all that is below the source root have the same files enumerated. -/
theorem HasValidGlobs.enumerate_congr (h : t.HasValidGlobs) (h' : t'.HasValidGlobs)
    (htree : tree.WellFormed) (hsource : t'.sourceRoot = t.sourceRoot)
    (hfile : ∀ root names, tree.resolve t.sourceRoot = .ok root →
      tree.hasFile (root ++ names) = true →
        t'.globFilter.drops names false = t.globFilter.drops names false)
    (hdirectory : ∀ root names, tree.resolve t.sourceRoot = .ok root →
      tree.hasDirectory (root ++ names) = true →
        t'.globFilter.drops names true = t.globFilter.drops names true) :
    t'.enumerate tree skip = t.enumerate tree skip := by
  by_cases hroot : ∃ root, tree.resolve t.sourceRoot = .ok root ∧ tree.hasDirectory root = true
  · obtain ⟨root, hroot, hdir⟩ := hroot
    obtain ⟨files, hfiles, hascending, hmem⟩ := exists_files htree hroot hdir h.filter_eq skip
    obtain ⟨files', hfiles', hascending', hmem'⟩ :=
      exists_files htree (hsource ▸ hroot) hdir h'.filter_eq skip
    have hselects : ∀ names, t'.Selects tree t'.globFilter skip root names ↔
        t.Selects tree t.globFilter skip root names := by
      refine fun names => ⟨fun hselects => ?_, fun hselects => ?_⟩
      · exact hselects.of_drops htree hsource.symm
          (fun hf hkept => (hfile root names hroot hf).symm.trans hkept)
          fun above hd hkept => (hdirectory root above hroot hd).symm.trans hkept
      · exact hselects.of_drops htree hsource
          (fun hf hkept => (hfile root names hroot hf).trans hkept)
          fun above hd hkept => (hdirectory root above hroot hd).trans hkept
    -- both lists ascend, so it is enough that they have the same members
    rw [hfiles, hfiles', Path.eq_of_ascending hascending' hascending fun p => ?_]
    simp only [hmem, hmem', hselects]
  · have hnone : ∀ root, tree.resolve t.sourceRoot = .ok root → tree.hasDirectory root = false :=
      fun root h => by_contra fun hdir => hroot ⟨root, h, by simpa using hdir⟩
    rw [enumerate_of_not_hasDirectory hnone, enumerate_of_not_hasDirectory (hsource ▸ hnone),
      hsource]

/-- The names of a file that is enumerated are those that its path is written from. -/
theorem HasValidGlobs.selects_of_enumerates (h : t.HasValidGlobs) (htree : tree.WellFormed)
    (hroot : tree.resolve t.sourceRoot = .ok root) (hnames : ∀ s ∈ names, Path.IsName s)
    (henumerates : t.Enumerates tree skip (.ofNames names)) :
    t.Selects tree t.globFilter skip root names := by
  obtain ⟨root', names', hroot', -, heq, hselects⟩ := (h.enumerates_iff htree).mp henumerates
  rw [hroot] at hroot'
  obtain rfl := Except.ok.inj hroot'
  have hcomponents := congrArg Path.components heq
  rw [Path.components_ofNames hnames,
    Path.components_ofNames (htree.isName_of_hasFile hselects.hasFile)] at hcomponents
  rwa [Path.map_name_injective hcomponents]

/-- A path is kept if the globs to take keep it and each of the globs to leave out does. -/
theorem HasValidGlobs.drops_eq_false_iff (h : t.HasValidGlobs) :
    t.globFilter.drops names isDirectory = false ↔
      { t with excludes := [] }.globFilter.drops names isDirectory = false ∧ ∀ g ∈ t.excludes,
        { t with includes := [], excludes := [g] }.globFilter.drops names isDirectory = false := by
  have hbefore : { t with excludes := [] }.globFilter = ⟨t.includeRules⟩ := by
    rw [globFilter, excludeRules, List.filterMap_nil, List.append_nil]
    rfl
  have halone : ∀ g ∈ t.excludes,
      { t with includes := [], excludes := [g] }.globFilter.drops names isDirectory = true ↔
        LineMatches ("!" ++ g) names isDirectory := by
    intro g hg
    rw [(h.of_subset (List.nil_subset _) (List.cons_subset.mpr ⟨hg, List.nil_subset _⟩)).drops_iff]
    simp [includeRules]
  simp only [← Bool.not_eq_true, h.drops_iff, hbefore, not_or, not_exists, not_and]
  rw [and_comm]
  exact and_congr_right fun _ => forall₂_congr fun g hg => not_congr (halone g hg).symm

/-- What is enumerated is what the globs to take leave and each of the globs to leave out leaves by
itself. -/
theorem HasValidGlobs.enumerates_excludes_iff (h : t.HasValidGlobs) (htree : tree.WellFormed) :
    t.Enumerates tree skip p ↔ { t with excludes := [] }.Enumerates tree skip p ∧
      ∀ g ∈ t.excludes, { t with includes := [], excludes := [g] }.Enumerates tree skip p := by
  have hbefore : { t with excludes := [] }.HasValidGlobs :=
    h.of_subset (List.Subset.refl _) (List.nil_subset _)
  have halone : ∀ g ∈ t.excludes, { t with includes := [], excludes := [g] }.HasValidGlobs :=
    fun g hg => h.of_subset (List.nil_subset _) (List.cons_subset.mpr ⟨hg, List.nil_subset _⟩)
  constructor
  · intro henumerates
    obtain ⟨root, names, hroot, hdir, rfl, hselects⟩ := (h.enumerates_iff htree).mp henumerates
    refine ⟨(hbefore.enumerates_iff htree).mpr ⟨root, names, hroot, hdir, rfl, ?_⟩, fun g hg =>
      ((halone g hg).enumerates_iff htree).mpr ⟨root, names, hroot, hdir, rfl, ?_⟩⟩
    · exact hselects.of_drops htree rfl (fun _ hkept => (h.drops_eq_false_iff.mp hkept).1)
        fun _ _ hkept => (h.drops_eq_false_iff.mp hkept).1
    · exact hselects.of_drops htree rfl (fun _ hkept => (h.drops_eq_false_iff.mp hkept).2 g hg)
        fun _ _ hkept => (h.drops_eq_false_iff.mp hkept).2 g hg
  · rintro ⟨htaken, hleft⟩
    obtain ⟨root, names, hroot, hdir, rfl, hselects⟩ := (hbefore.enumerates_iff htree).mp htaken
    -- the path tells the names, so that all of them select the same file
    have hnames := htree.isName_of_hasFile hselects.hasFile
    have hleft' := fun g hg => (halone g hg).selects_of_enumerates htree hroot hnames (hleft g hg)
    refine (h.enumerates_iff htree).mpr ⟨root, names, hroot, hdir, rfl, hselects.hasFile, ?_, ?_,
      hselects.notCovered⟩
    · exact h.drops_eq_false_iff.mpr ⟨hselects.kept, fun g hg => (hleft' g hg).kept⟩
    · exact fun above below heq habove hbelow => h.drops_eq_false_iff.mpr
        ⟨hselects.entered above below heq habove hbelow,
          fun g hg => (hleft' g hg).entered above below heq habove hbelow⟩

/-- Plain globs to take, if there are any, keep directories and the files that some glob matches. -/
theorem HasValidGlobs.drops_eq_false_iff_of_isPlain (h : t.HasValidGlobs) (hne : t.includes ≠ [])
    (hplain : ∀ g ∈ t.includes, IsPlain g) (hexcludes : t.excludes = []) :
    t.globFilter.drops names isDirectory = false ↔
      isDirectory = true ∨ ∃ g ∈ t.includes, LineMatches g names isDirectory := by
  have hkeeps : ∀ r ∈ t.includeRules, r.isExclude = false := by
    intro r hr
    obtain ⟨g, hg, hrule⟩ := List.mem_filterMap.mp hr
    rw [Glob.isExclude_of_ruleOf? hrule]
    exact beq_false_of_ne (hplain g hg).not_exclude
  -- a single plain glob already describes a rule
  have hrules : t.includeRules ≠ [] := by
    obtain ⟨g, hg⟩ := List.exists_mem_of_ne_nil _ hne
    obtain ⟨rule?, hparse⟩ := h.includes g hg
    obtain ⟨r, rfl, -⟩ := Rule.exists_of_isPlain (hplain g hg) hparse
    exact List.ne_nil_of_mem (List.mem_filterMap.mpr ⟨g, hg, Glob.ruleOf?_eq_some_iff.mpr hparse⟩)
  have hmatches := @any_matches_filterMap names isDirectory t.includes fun g => g
  rw [globFilter, excludeRules, hexcludes, List.filterMap_nil, List.append_nil,
    Glob.Filter.drops_of_keeps hkeeps hrules, ← hmatches, includeRules]
  cases isDirectory <;> simp

/-- What is enumerated for plain globs to take is what is enumerated for one of them or another. -/
theorem HasValidGlobs.enumerates_includes_iff (h : t.HasValidGlobs) (htree : tree.WellFormed)
    (hne : t.includes ≠ []) (hplain : ∀ g ∈ t.includes, IsPlain g) :
    { t with excludes := [] }.Enumerates tree skip p ↔ ∃ g ∈ t.includes,
      { t with includes := [g], excludes := [] }.Enumerates tree skip p := by
  have hall : { t with excludes := [] }.HasValidGlobs :=
    h.of_subset (List.Subset.refl _) (List.nil_subset _)
  have halone : ∀ g ∈ t.includes, { t with includes := [g], excludes := [] }.HasValidGlobs :=
    fun g hg => h.of_subset (List.cons_subset.mpr ⟨hg, List.nil_subset _⟩) (List.nil_subset _)
  have hkept : ∀ names isDirectory,
      { t with excludes := [] }.globFilter.drops names isDirectory = false ↔
        isDirectory = true ∨ ∃ g ∈ t.includes, LineMatches g names isDirectory :=
    fun names isDirectory => hall.drops_eq_false_iff_of_isPlain hne hplain rfl
  have hkeptAlone : ∀ g (hg : g ∈ t.includes) names isDirectory,
      { t with includes := [g], excludes := [] }.globFilter.drops names isDirectory = false ↔
        isDirectory = true ∨ LineMatches g names isDirectory := by
    intro g hg names isDirectory
    rw [(halone g hg).drops_eq_false_iff_of_isPlain (List.cons_ne_nil _ _)
      (by simpa using hplain g hg) rfl]
    simp
  constructor
  · intro henumerates
    obtain ⟨root, names, hroot, hdir, rfl, hselects⟩ := (hall.enumerates_iff htree).mp henumerates
    -- the glob that matches the file also lets the walk through to it
    obtain ⟨g, hg, hmatches⟩ := ((hkept _ _).mp hselects.kept).resolve_left Bool.false_ne_true
    refine ⟨g, hg, ((halone g hg).enumerates_iff htree).mpr ⟨root, names, hroot, hdir, rfl, ?_⟩⟩
    exact hselects.of_drops htree rfl (fun _ _ => (hkeptAlone g hg _ _).mpr (Or.inr hmatches))
      fun _ _ _ => (hkeptAlone g hg _ _).mpr (Or.inl rfl)
  · rintro ⟨g, hg, henumerates⟩
    obtain ⟨root, names, hroot, hdir, rfl, hselects⟩ :=
      ((halone g hg).enumerates_iff htree).mp henumerates
    refine (hall.enumerates_iff htree).mpr ⟨root, names, hroot, hdir, rfl, ?_⟩
    have hmatches := ((hkeptAlone g hg _ _).mp hselects.kept).resolve_left Bool.false_ne_true
    exact hselects.of_drops htree rfl (fun _ _ => (hkept _ _).mpr (Or.inr ⟨g, hg, hmatches⟩))
      fun _ _ _ => (hkept _ _).mpr (Or.inl rfl)

/-- In which respects the globs of a target act as sets. -/
structure GlobLaws (t : Target) (tree : Tree) (skip : List Path) (filter : Glob.Filter) : Prop where
  /-- The order of the globs to leave out does not matter. -/
  excludes_perm : ∀ excludes, excludes.Perm t.excludes →
    { t with excludes }.enumerate tree skip = t.enumerate tree skip
  /-- The order of the globs to take does not matter if they are at odds over nothing in the source
  tree. -/
  includes_perm : ∀ includes, includes.Perm t.includes →
    (∀ root names, tree.resolve t.sourceRoot = .ok root →
      (tree.hasFile (root ++ names) = true → ¬t.Disputes names false) ∧
        (tree.hasDirectory (root ++ names) = true → ¬t.Disputes names true)) →
    { t with includes }.enumerate tree skip = t.enumerate tree skip
  /-- They have to be so: any path over which they are at odds is dropped in one order and kept in
  another. -/
  drops_perm : ∀ names isDirectory, (∀ includes, includes.Perm t.includes → ∃ filter',
    { t with includes }.filter = .ok filter' ∧
      filter'.drops names isDirectory = filter.drops names isDirectory) ↔
    ¬t.Disputes names isDirectory
  /-- Without globs to leave out, plain globs to take yield what they yield one by one. -/
  includes_union : t.includes ≠ [] → (∀ g ∈ t.includes, IsPlain g) → ∀ p,
    { t with excludes := [] }.Enumerates tree skip p ↔ ∃ g ∈ t.includes,
      { t with includes := [g], excludes := [] }.Enumerates tree skip p
  /-- What some glob to leave out drops by itself is left out, and nothing else. -/
  excludes_inter : ∀ p, t.Enumerates tree skip p ↔
    { t with excludes := [] }.Enumerates tree skip p ∧
      ∀ g ∈ t.excludes, { t with includes := [], excludes := [g] }.Enumerates tree skip p

/-- Valid globs act as sets: those to leave out always, and those to take unless they are at odds
with each other. -/
theorem globs_act_as_sets (htree : tree.WellFormed) (hfilter : t.filter = .ok filter)
    (skip : List Path) : t.GlobLaws tree skip filter := by
  obtain ⟨h, rfl⟩ := filter_eq_ok_iff.mp hfilter
  have hincludes : ∀ includes, includes.Perm t.includes → { t with includes }.HasValidGlobs :=
    fun _ hperm => h.of_subset hperm.subset (List.Subset.refl _)
  refine ⟨fun excludes hperm => ?_, fun includes hperm hdisputes => ?_, fun names isDirectory => ?_,
    fun hne hplain p => h.enumerates_includes_iff htree hne hplain,
    fun p => h.enumerates_excludes_iff htree⟩
  · exact h.enumerate_congr (h.of_subset (List.Subset.refl _) hperm.subset) htree rfl
      (fun _ _ _ _ => h.drops_excludes_perm hperm) fun _ _ _ _ => h.drops_excludes_perm hperm
  · exact h.enumerate_congr (hincludes includes hperm) htree rfl
      (fun root names hroot hfile =>
        h.drops_includes_perm hperm ((hdisputes root names hroot).1 hfile))
      fun root names hroot hdirectory =>
        h.drops_includes_perm hperm ((hdisputes root names hroot).2 hdirectory)
  · rw [← h.drops_includes_perm_iff]
    refine forall₂_congr fun includes hperm => ?_
    rw [(hincludes includes hperm).filter_eq]
    simp

/-- A target with several globs to take and to leave out. -/
def modules : Target :=
  { scripts with includes := ["*.js", "*.mjs"], excludes := ["vendor", "dist"] }

theorem modules_globs :
    { modules with includes := ["*.mjs", "*.js"] }.enumerate scriptTree [] =
      modules.enumerate scriptTree [] ∧
    { modules with excludes := ["dist", "vendor"] }.enumerate scriptTree [] =
      modules.enumerate scriptTree [] ∧
    ∀ p, { modules with excludes := [] }.Enumerates scriptTree [] p ↔ ∃ g ∈ ["*.js", "*.mjs"],
      { modules with includes := [g], excludes := [] }.Enumerates scriptTree [] p := by
  have htree : scriptTree.WellFormed := by decide +kernel
  have hplain : ∀ g ∈ modules.includes, IsPlain g := by
    intro g hg
    have hcases : g = "*.js" ∨ g = "*.mjs" := by simpa [modules] using hg
    rcases hcases with rfl | rfl <;>
      exact ⟨by simp, by simp, '*', by simp, by decide +kernel⟩
  have laws := globs_act_as_sets (t := modules) htree rfl []
  refine ⟨laws.includes_perm _ (by decide) fun root names hroot => ⟨fun _ hdisputes => ?_,
    fun _ hdisputes => ?_⟩, laws.excludes_perm _ (by decide),
    laws.includes_union (by decide) hplain⟩
  all_goals
    obtain ⟨g, hg, hmark, -⟩ := hdisputes.refused
    exact (hplain g hg).not_exclude hmark

/-- A target whose globs to take are at odds over a script. -/
def contested : Target :=
  { Target.new "esm" ⟨"/src"⟩ ⟨"/dist"⟩ with includes := ["*.js", "!a.js"] }

/-- A source tree with that script and another one. -/
def twoScriptTree : Tree :=
  ⟨[(["src"], .directory), (["src", "a.js"], .file ⟨#[65]⟩), (["src", "b.js"], .file ⟨#[66]⟩)], []⟩

/-- The order of the globs to take decides on a script that one of them excludes. -/
theorem contested_order_matters :
    twoScriptTree.WellFormed ∧ ["!a.js", "*.js"].Perm contested.includes ∧
    contested.enumerate twoScriptTree [] = .ok [⟨"b.js"⟩] ∧
    { contested with includes := ["!a.js", "*.js"] }.enumerate twoScriptTree [] =
      .ok [⟨"a.js"⟩, ⟨"b.js"⟩] := by
  have hroot : twoScriptTree.resolve contested.sourceRoot = .ok ["src"] := by decide +kernel
  have hdirectory : twoScriptTree.hasDirectory ["src"] = true := by decide +kernel
  exact ⟨by decide +kernel, by decide,
    enumerate_of_pairwise hroot hdirectory rfl (by decide +kernel) (by decide +kernel),
    enumerate_of_pairwise hroot hdirectory rfl (by decide +kernel) (by decide +kernel)⟩

end Target

end Filewise
