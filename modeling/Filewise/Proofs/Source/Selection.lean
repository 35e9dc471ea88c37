import Filewise.Proofs.Source.Enumerate

/-!
# Which files are enumerated

The files of a target are those below its source root that no glob drops, neither by themselves nor
together with a directory above them, and that do not lie at or under a place to be skipped. They
come in strictly ascending order. Places that are not written strictly inside the source root do not
count, and each one that does takes away the files at or under it.

## Main definitions

* `Path.IsBelow`: a path that is written strictly inside another one.
* `Target.Covers`: a place inside the source root and a path at or under it.
* `Target.Selects`: the files that are enumerated.

## Main results

* `Target.exists_files`: there are files, in ascending order, and they are the selected ones.
* `Target.enumerate_selects`: which files are enumerated, and what one more place to skip changes.
-/

namespace Filewise

/-- A path that is written strictly inside another one. -/
def Path.IsBelow (p base : Path) : Prop :=
  ∃ rest, rest ≠ [] ∧ p.components = base.components ++ rest

/-- Paths are written inside one another if one starts with the other and is not the same. -/
theorem Path.isBelow_iff {p base : Path} :
    p.IsBelow base ↔ p.startsWith base = true ∧ p.same base = false := by
  rw [startsWith_iff, ← Bool.not_eq_true, same_iff]
  constructor
  · rintro ⟨rest, hrest, hp⟩
    exact ⟨⟨rest, hp.symm⟩, fun hsame => hrest (List.append_right_eq_self.mp (hp.symm.trans hsame))⟩
  · rintro ⟨⟨rest, hrest⟩, hsame⟩
    refine ⟨rest, ?_, hrest.symm⟩
    rintro rfl
    exact hsame (by rw [← hrest, List.append_nil])

instance (p base : Path) : Decidable (p.IsBelow base) := decidable_of_iff _ Path.isBelow_iff.symm

/-- Ascending lists of the same paths are the same. -/
theorem Path.eq_of_ascending {ps qs : List Path} (hps : ps.Pairwise fun p q => p.compare q = .lt)
    (hqs : qs.Pairwise fun p q => p.compare q = .lt) (h : ∀ p, p ∈ ps ↔ p ∈ qs) : ps = qs := by
  have hne : ∀ {p q : Path}, p.compare q = .lt → p ≠ q := by
    rintro p _ hlt rfl
    simp [Std.ReflCmp.compare_self] at hlt
  have hperm : ps.Perm qs := (List.perm_ext_iff_of_nodup (hps.imp hne) (hqs.imp hne)).mpr h
  refine hperm.eq_of_pairwise (fun p q _ _ hlt hgt => ?_) hps hqs
  rw [@Std.OrientedCmp.eq_swap _ Path.compare, hgt] at hlt
  simp at hlt

namespace Target

variable {t : Target} {tree : Tree} {filter : Glob.Filter} {skip : List Path}
  {root names : Location} {s p : Path}

/-- A place to be skipped covers the paths at or under it if it is written strictly inside the
source root. -/
def Covers (t : Target) (s p : Path) : Prop :=
  s.IsBelow t.sourceRoot ∧ (t.sourceRoot.join p).startsWith s = true

instance (t : Target) (s p : Path) : Decidable (t.Covers s p) :=
  inferInstanceAs (Decidable (_ ∧ _))

/-- A path is skipped if one of the places covers it. -/
theorem isSkipped_iff :
    t.isSkipped skip names = true ↔ ∃ s ∈ skip, t.Covers s (.ofNames names) := by
  simp [isSkipped, List.any_eq_true, Covers, Path.isBelow_iff]

/-- The files that are enumerated: no glob drops them or a directory on the way to them, and no
place to be skipped covers them. -/
structure Selects (t : Target) (tree : Tree) (filter : Glob.Filter) (skip : List Path)
    (root names : Location) : Prop where
  hasFile : tree.hasFile (root ++ names) = true
  kept : filter.drops names false = false
  entered : ∀ above below, names = above ++ below → above ≠ [] → below ≠ [] →
    filter.drops above true = false
  notCovered : ∀ s ∈ skip, ¬t.Covers s (.ofNames names)

/-- A place that covers a directory covers what is in it. -/
theorem Covers.append {above below : Location} (hnames : ∀ s ∈ above ++ below, Path.IsName s)
    (h : t.Covers s (.ofNames above)) : t.Covers s (.ofNames (above ++ below)) := by
  have habove : ∀ s ∈ above, Path.IsName s := fun s hs => hnames s (List.mem_append_left _ hs)
  refine ⟨h.1, ?_⟩
  have hpre := Path.startsWith_iff.mp h.2
  rw [Path.components_join_of_names (Path.components_ofNames habove)] at hpre
  rw [Path.startsWith_iff, Path.components_join_of_names (Path.components_ofNames hnames),
    List.map_append, ← List.append_assoc]
  exact hpre.trans (List.prefix_append _ _)

/-- The walk for a target comes to the files that are selected. -/
theorem isReached_iff_selects (htree : tree.WellFormed)
    (hdirectory : tree.hasDirectory root = true) :
    tree.IsReached (t.leavesOut filter skip) root [] names ↔
      t.Selects tree filter skip root names := by
  have hskipped : ∀ names, t.isSkipped skip names = false ↔
      ∀ s ∈ skip, ¬t.Covers s (.ofNames names) := by
    intro names
    rw [← Bool.not_eq_true, isSkipped_iff]
    simp only [not_exists, not_and]
  constructor
  · rintro ⟨-, hfile, hkept, hentered⟩
    obtain ⟨hfilter, hskip⟩ := Bool.or_eq_false_iff.mp hkept
    refine ⟨hfile, hfilter, fun above below heq habove hbelow => ?_, (hskipped _).mp hskip⟩
    exact (Bool.or_eq_false_iff.mp (hentered above below heq habove hbelow)).1
  · rintro ⟨hfile, hfilter, hentered, hskip⟩
    have hnames := htree.isName_of_hasFile hfile
    refine ⟨?_, hfile, Bool.or_eq_false_iff.mpr ⟨hfilter, (hskipped _).mpr hskip⟩, ?_⟩
    · -- the source root is no file
      rintro rfl
      rw [List.append_nil, Tree.hasFile_of_hasDirectory hdirectory] at hfile
      simp at hfile
    · rintro above below rfl habove hbelow
      refine Bool.or_eq_false_iff.mpr ⟨hentered above below rfl habove hbelow, ?_⟩
      exact (hskipped _).mpr fun s hs hcovers => hskip s hs (hcovers.append hnames)

/-- If the source root is a directory and the globs are valid, the files that are selected are
enumerated, in strictly ascending order. -/
theorem exists_files (htree : tree.WellFormed) (hroot : tree.resolve t.sourceRoot = .ok root)
    (hdirectory : tree.hasDirectory root = true) (hfilter : t.filter = .ok filter)
    (skip : List Path) : ∃ files, t.enumerate tree skip = .ok files ∧
      files.Pairwise (fun p q => p.compare q = .lt) ∧
      ∀ p, p ∈ files ↔ ∃ names, p = .ofNames names ∧ t.Selects tree filter skip root names := by
  have henumerate : t.enumerate tree skip = .ok _ :=
    enumerate_eq_ok_iff.mpr ⟨root, filter, hroot, hdirectory, hfilter, rfl⟩
  refine ⟨_, henumerate, ascending_enumerate htree henumerate, fun p => ?_⟩
  rw [sortBy, List.mem_mergeSort, List.mem_map]
  simp only [htree.mem_walkFiles_depth_iff, isReached_iff_selects htree hdirectory,
    eq_comm (a := p), and_comm]

/-- The files below the source root of a target that no glob drops and no place to be skipped covers
are enumerated, in strictly ascending order. One more place to be skipped changes nothing if it is
not written strictly inside the source root, and otherwise takes away the files at or under it. -/
theorem enumerate_selects (htree : tree.WellFormed) (hroot : tree.resolve t.sourceRoot = .ok root)
    (hdirectory : tree.hasDirectory root = true) (hfilter : t.filter = .ok filter)
    (skip : List Path) : ∃ files, t.enumerate tree skip = .ok files ∧
      files.Pairwise (fun p q => p.compare q = .lt) ∧
      (∀ p, p ∈ files ↔ ∃ names, p = .ofNames names ∧ t.Selects tree filter skip root names) ∧
      ∀ s more, (∀ s', s' ∈ more ↔ s' = s ∨ s' ∈ skip) →
        (¬s.IsBelow t.sourceRoot → t.enumerate tree more = .ok files) ∧
        (s.IsBelow t.sourceRoot → t.enumerate tree more =
          .ok (files.filter fun p => !(t.sourceRoot.join p).startsWith s)) := by
  obtain ⟨files, hfiles, hascending, hmem⟩ := exists_files htree hroot hdirectory hfilter skip
  refine ⟨files, hfiles, hascending, hmem, fun s more hmore => ?_⟩
  -- the walk may take another way with one more place to skip, so the files are compared as sets
  obtain ⟨fewer, hfewer, hascending', hmem'⟩ := exists_files htree hroot hdirectory hfilter more
  -- what is left are the files that the new place does not cover
  have hleft : ∀ p, p ∈ fewer ↔ p ∈ files ∧ ¬t.Covers s p := by
    intro p
    rw [hmem', hmem]
    constructor
    · rintro ⟨names, rfl, hselects⟩
      refine ⟨⟨names, rfl, ?_⟩, hselects.notCovered s ((hmore s).mpr (Or.inl rfl))⟩
      exact { hselects with
        notCovered := fun s' hs' => hselects.notCovered s' ((hmore s').mpr (Or.inr hs')) }
    · rintro ⟨⟨names, rfl, hselects⟩, hcovers⟩
      refine ⟨names, rfl, { hselects with notCovered := fun s' hs' => ?_ }⟩
      rcases (hmore s').mp hs' with rfl | hs'
      · exact hcovers
      · exact hselects.notCovered s' hs'
  rw [hfewer]
  constructor
  · intro hbelow
    rw [Path.eq_of_ascending hascending' hascending fun p => ?_]
    rw [hleft, and_iff_left fun hcovers => hbelow hcovers.1]
  · intro hbelow
    rw [Path.eq_of_ascending hascending' (hascending.filter _) fun p => ?_]
    rw [hleft, List.mem_filter]
    simp [Covers, hbelow]

/-- A target that takes scripts, but none of others, and puts its output below its source root. -/
def scripts : Target :=
  { Target.new "esm" ⟨"/src"⟩ ⟨"/src/dist"⟩ with includes := ["*.js"], excludes := ["vendor"] }

/-- A source tree with the output of an earlier build, and with a directory that is left out. -/
def scriptTree : Tree :=
  ⟨[(["src"], .directory), (["src", "a.js"], .file ⟨#[65]⟩), (["src", "a.md"], .file ⟨#[66]⟩),
    (["src", "dist"], .directory), (["src", "dist", "a.js"], .file ⟨#[67]⟩),
    (["src", "vendor"], .directory), (["src", "vendor", "b.js"], .file ⟨#[68]⟩)], []⟩

theorem scripts_enumerate :
    scripts.enumerate scriptTree [] = .ok [⟨"a.js"⟩, ⟨"dist/a.js"⟩] := by
  have hroot : scriptTree.resolve scripts.sourceRoot = .ok ["src"] := by decide +kernel
  exact enumerate_of_pairwise hroot (by decide +kernel) rfl (by decide +kernel) (by decide +kernel)

theorem scripts_enumerate_skip_output :
    scripts.enumerate scriptTree [⟨"/src/dist"⟩] = .ok [⟨"a.js"⟩] ∧
      scripts.enumerate scriptTree [⟨"/"⟩] = .ok [⟨"a.js"⟩, ⟨"dist/a.js"⟩] := by
  have hroot : scriptTree.resolve scripts.sourceRoot = .ok ["src"] := by decide +kernel
  obtain ⟨files, hfiles, -, -, hmore⟩ :=
    enumerate_selects (by decide +kernel) hroot (by decide +kernel) rfl []
  obtain rfl := Except.ok.inj (scripts_enumerate.symm.trans hfiles)
  constructor
  · rw [(hmore ⟨"/src/dist"⟩ _ (by simp)).2 (by decide +kernel)]
    decide +kernel
  · exact (hmore ⟨"/"⟩ _ (by simp)).1 (by decide +kernel)

end Target

end Filewise
