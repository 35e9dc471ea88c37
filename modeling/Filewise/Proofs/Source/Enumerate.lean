import Filewise.Proofs.Report.Order
import Filewise.Proofs.Tree.Directories
import Filewise.Source.Enumerate
import Mathlib.Data.List.Flatten
import Mathlib.Data.List.Nodup
import Mathlib.Data.List.Perm.Basic

/-!
# The files of a target

Every path that is enumerated for a target names a file below the source root that does
not have to be skipped, and no file is enumerated twice. A walk finds all files that it can
come to without entering a directory that is dropped.

## Main definitions

* `Tree.IsReached`: a walk comes to a file.
* `Target.leavesOut`: what the walk for a target leaves out.

## Main results

* `Tree.WellFormed.mem_walkFiles_iff`: a walk finds the files that it comes to.
* `Target.enumerate_eq_ok_iff`: which files are enumerated for a target.
* `Target.mem_enumerate`: what is known of an enumerated path.
* `Target.pairwise_enumerate`: enumerated paths name different files.
* `Target.ascending_enumerate`: they are in strictly ascending order.
-/

namespace Filewise

namespace Tree

variable {t : Tree} {drops : Location → Bool → Bool} {depth : Nat}
  {directory relative names : Location} {name : String} {e : Entry}

/-- The name under which something is listed in a directory, if it stands directly there. -/
def childIn? (directory : Location) : Location × Entry → Option (String × Entry)
  | (l, e) =>
    match l.reverse with
    | name :: above => if above.reverse = directory then some (name, e) else none
    | [] => none

theorem childIn?_eq_some_iff {entry : Location × Entry} :
    childIn? directory entry = some (name, e) ↔ entry = (directory ++ [name], e) := by
  obtain ⟨l, e'⟩ := entry
  constructor
  · intro h
    rw [childIn?] at h
    split at h
    · rename_i name' above hl
      split_ifs at h with habove
      obtain ⟨rfl, rfl⟩ := Prod.mk.inj (Option.some_inj.mp h)
      rw [← habove, ← List.reverse_cons, ← hl, List.reverse_reverse]
    · simp at h
  · intro h
    obtain ⟨rfl, rfl⟩ := Prod.mk.inj h
    simp [childIn?]

theorem children_eq (t : Tree) (directory : Location) :
    t.children directory = t.entries.filterMap (childIn? directory) := rfl

/-- What stands directly in a directory is listed with its name. -/
theorem mem_children : (name, e) ∈ t.children directory ↔ (directory ++ [name], e) ∈ t.entries := by
  rw [children_eq, List.mem_filterMap]
  simp only [childIn?_eq_some_iff, exists_eq_right]

/-- A walk finds files inside the directory where it begins that are not dropped. -/
theorem mem_walkFiles (h : names ∈ t.walkFiles drops depth directory relative) :
    ∃ inside content, inside ≠ [] ∧ names = relative ++ inside ∧
      (directory ++ inside, .file content) ∈ t.entries ∧ drops names false = false := by
  induction depth generalizing directory relative with
  | zero => simp [walkFiles] at h
  | succ depth ih =>
    rw [walkFiles, List.mem_flatMap] at h
    obtain ⟨⟨name, e⟩, hchild, h⟩ := h
    rw [mem_children] at hchild
    dsimp only at h
    cases e with
    | file content =>
      dsimp only at h
      split_ifs at h with hdrops
      · simp at h
      · obtain rfl := List.mem_singleton.mp h
        exact ⟨[name], content, by simp, rfl, hchild, by simpa using hdrops⟩
    | directory =>
      dsimp only at h
      split_ifs at h with hdrops
      · simp at h
      · obtain ⟨inside, content, -, rfl, hmem, hkept⟩ := ih h
        refine ⟨name :: inside, content, by simp, by simp, ?_, hkept⟩
        rwa [List.append_assoc, List.singleton_append] at hmem

/-- In a directory each name is listed once. -/
theorem pairwise_children (h : (t.entries.map Prod.fst).Nodup) (directory : Location) :
    (t.children directory).Pairwise fun a b => a.1 ≠ b.1 := by
  rw [children_eq, List.pairwise_filterMap]
  refine (List.pairwise_map.mp h).imp ?_
  rintro entry entry' hne ⟨name, e⟩ he ⟨name', e'⟩ he' rfl
  rw [childIn?_eq_some_iff.mp he, childIn?_eq_some_iff.mp he'] at hne
  exact hne rfl

/-- What a walk finds in one place of a directory. -/
def walkChild (t : Tree) (drops : Location → Bool → Bool) (depth : Nat)
    (directory relative : Location) : String × Entry → List Location
  | (name, .file _) => if drops (relative ++ [name]) false then [] else [relative ++ [name]]
  | (name, .directory) =>
    if drops (relative ++ [name]) true then []
    else walkFiles t drops depth (directory ++ [name]) (relative ++ [name])

theorem walkFiles_succ (t : Tree) (drops : Location → Bool → Bool) (depth : Nat)
    (directory relative : Location) :
    t.walkFiles drops (depth + 1) directory relative =
      (t.children directory).flatMap (t.walkChild drops depth directory relative) := by
  rw [walkFiles]
  congr
  funext ⟨name, e⟩
  cases e <;> rfl

theorem mem_walkChild_file {content : ByteArray} :
    names ∈ t.walkChild drops depth directory relative (name, .file content) ↔
      drops (relative ++ [name]) false = false ∧ names = relative ++ [name] := by
  rw [walkChild]
  split_ifs with hdrops <;> simp [hdrops]

theorem mem_walkChild_directory :
    names ∈ t.walkChild drops depth directory relative (name, .directory) ↔
      drops (relative ++ [name]) true = false ∧
        names ∈ t.walkFiles drops depth (directory ++ [name]) (relative ++ [name]) := by
  rw [walkChild]
  split_ifs with hdrops <;> simp [hdrops]

/-- What a walk finds in one place begins with its name. -/
theorem prefix_of_mem_walkChild
    (h : names ∈ t.walkChild drops depth directory relative (name, e)) :
    relative ++ [name] <+: names := by
  cases e with
  | file content => exact (mem_walkChild_file.mp h).2 ▸ List.prefix_rfl
  | directory =>
    obtain ⟨inside, -, -, rfl, -⟩ := mem_walkFiles (mem_walkChild_directory.mp h).2
    exact List.prefix_append _ _

/-- A walk finds nothing at the place where it begins. -/
theorem not_mem_walkFiles_self : relative ∉ t.walkFiles drops depth directory relative := by
  intro h
  obtain ⟨inside, -, hne, heq, -⟩ := mem_walkFiles h
  exact hne (List.self_eq_append_right.mp heq)

/-- What a walk finds, by the name in the directory where it begins. -/
theorem WellFormed.mem_walkFiles_cons (h : t.WellFormed) {rest : Location} :
    relative ++ name :: rest ∈ t.walkFiles drops (depth + 1) directory relative ↔
      ∃ e, t.find? (directory ++ [name]) = some e ∧
        relative ++ name :: rest ∈ t.walkChild drops depth directory relative (name, e) := by
  rw [walkFiles_succ, List.mem_flatMap]
  constructor
  · rintro ⟨⟨name', e⟩, hchild, hmem⟩
    -- what is found begins with the name of the place where it is found
    have hpre := prefix_of_mem_walkChild hmem
    rw [List.prefix_append_right_inj, List.cons_prefix_cons] at hpre
    obtain rfl := hpre.1
    exact ⟨e, h.find?_eq_some (mem_children.mp hchild), hmem⟩
  · rintro ⟨e, he, hmem⟩
    rw [find?, if_neg (by simp)] at he
    exact ⟨(name, e), mem_children.mpr (mem_of_lookup he), hmem⟩

/-- A walk that begins in a directory comes to a file inside it that is not dropped: it enters
all directories on the way. -/
structure IsReached (t : Tree) (drops : Location → Bool → Bool)
    (directory relative inside : Location) : Prop where
  ne_nil : inside ≠ []
  hasFile : t.hasFile (directory ++ inside) = true
  kept : drops (relative ++ inside) false = false
  entered : ∀ above below, inside = above ++ below → above ≠ [] → below ≠ [] →
    drops (relative ++ above) true = false

theorem isReached_singleton_iff : t.IsReached drops directory relative [name] ↔
    t.hasFile (directory ++ [name]) = true ∧ drops (relative ++ [name]) false = false := by
  constructor
  · exact fun h => ⟨h.hasFile, h.kept⟩
  · rintro ⟨hfile, hkept⟩
    refine ⟨by simp, hfile, hkept, fun above below heq habove hbelow => ?_⟩
    have hlength := congrArg List.length heq
    have := List.length_pos_iff.mpr habove
    have := List.length_pos_iff.mpr hbelow
    rw [List.length_singleton, List.length_append] at hlength
    omega

theorem isReached_cons_iff {rest : Location} (hrest : rest ≠ []) :
    t.IsReached drops directory relative (name :: rest) ↔
      drops (relative ++ [name]) true = false ∧
        t.IsReached drops (directory ++ [name]) (relative ++ [name]) rest := by
  have hsplit : ∀ l : Location, l ++ name :: rest = l ++ [name] ++ rest := fun l => by simp
  constructor
  · intro h
    refine ⟨h.entered [name] rest rfl (by simp) hrest, hrest, ?_, ?_, ?_⟩
    · exact hsplit directory ▸ h.hasFile
    · exact hsplit relative ▸ h.kept
    · rintro above below rfl habove hbelow
      simpa using h.entered (name :: above) below rfl (by simp) hbelow
  · rintro ⟨hname, h⟩
    refine ⟨by simp, hsplit directory ▸ h.hasFile, hsplit relative ▸ h.kept, ?_⟩
    intro above below heq habove hbelow
    obtain ⟨name', above, rfl⟩ := List.exists_cons_of_ne_nil habove
    obtain ⟨rfl, rfl⟩ := List.cons.inj heq
    -- the first directory is the one where the rest begins
    by_cases hnil : above = []
    · rw [hnil]
      exact hname
    · simpa using h.entered above below rfl hnil hbelow

/-- A single name is found if it is that of a file that is not dropped. -/
theorem WellFormed.mem_walkFiles_singleton (h : t.WellFormed) :
    relative ++ [name] ∈ t.walkFiles drops (depth + 1) directory relative ↔
      t.IsReached drops directory relative [name] := by
  rw [h.mem_walkFiles_cons, isReached_singleton_iff, hasFile_iff]
  constructor
  · rintro ⟨_ | content, he, hmem⟩
    · exact absurd (mem_walkChild_directory.mp hmem).2 not_mem_walkFiles_self
    · exact ⟨⟨_, he⟩, (mem_walkChild_file.mp hmem).1⟩
  · rintro ⟨⟨content, he⟩, hkept⟩
    exact ⟨_, he, mem_walkChild_file.mpr ⟨hkept, rfl⟩⟩

/-- More names are found through the directory of the first one. -/
theorem WellFormed.mem_walkFiles_through (h : t.WellFormed) {rest : Location} (hrest : rest ≠ []) :
    relative ++ name :: rest ∈ t.walkFiles drops (depth + 1) directory relative ↔
      t.hasDirectory (directory ++ [name]) = true ∧ drops (relative ++ [name]) true = false ∧
        relative ++ [name] ++ rest ∈
          t.walkFiles drops depth (directory ++ [name]) (relative ++ [name]) := by
  have hnext : relative ++ name :: rest = relative ++ [name] ++ rest := by simp
  rw [h.mem_walkFiles_cons, hasDirectory_iff]
  constructor
  · rintro ⟨_ | content, he, hmem⟩
    · exact ⟨he, hnext ▸ mem_walkChild_directory.mp hmem⟩
    · exact absurd (mem_walkChild_file.mp hmem).2 (by simpa using hrest)
  · rintro ⟨he, hmem⟩
    exact ⟨_, he, mem_walkChild_directory.mpr (hnext ▸ hmem)⟩

/-- A file that a walk comes to is in a directory. -/
theorem IsReached.hasDirectory {inside : Location}
    (h : t.IsReached drops directory relative inside) (hclosed : t.Closed) :
    t.hasDirectory directory = true := by
  refine hclosed.hasDirectory_of_append h.ne_nil ?_
  obtain ⟨content, hfile⟩ := hasFile_iff.mp h.hasFile
  rw [hfile]
  rfl

/-- A walk finds the files that it comes to within its depth. -/
theorem WellFormed.mem_walkFiles_iff (h : t.WellFormed) {inside : Location} :
    relative ++ inside ∈ t.walkFiles drops depth directory relative ↔
      inside.length ≤ depth ∧ t.IsReached drops directory relative inside := by
  induction depth generalizing directory relative inside with
  | zero =>
    constructor
    · intro hmem
      simp [walkFiles] at hmem
    · rintro ⟨hlength, hreached⟩
      exact absurd (List.length_eq_zero_iff.mp (Nat.le_zero.mp hlength)) hreached.ne_nil
  | succ depth ih =>
    cases inside with
    | nil =>
      rw [List.append_nil]
      constructor
      · exact fun hmem => absurd hmem not_mem_walkFiles_self
      · exact fun hreached => absurd rfl hreached.2.ne_nil
    | cons name rest =>
      rw [List.length_cons, Nat.add_le_add_iff_right]
      by_cases hrest : rest = []
      · subst hrest
        rw [h.mem_walkFiles_singleton]
        exact (and_iff_right (Nat.zero_le depth)).symm
      · rw [h.mem_walkFiles_through hrest, isReached_cons_iff hrest, ih]
        constructor
        · rintro ⟨-, hentered, hlength, hreached⟩
          exact ⟨hlength, hentered, hreached⟩
        · rintro ⟨hlength, hentered, hreached⟩
          exact ⟨hreached.hasDirectory h.toClosed, hentered, hlength, hreached⟩

/-- A file below a directory is led to by names. -/
theorem WellFormed.isName_of_hasFile (h : t.WellFormed) {inside : Location}
    (hfile : t.hasFile (directory ++ inside) = true) : ∀ s ∈ inside, Path.IsName s := by
  obtain ⟨content, hcontent⟩ := hasFile_iff.mp hfile
  exact fun s hs => h.isName (by rw [hcontent]; rfl) s (List.mem_append_right directory hs)

/-- A walk finds no file twice. -/
theorem nodup_walkFiles (h : (t.entries.map Prod.fst).Nodup) :
    (t.walkFiles drops depth directory relative).Nodup := by
  induction depth generalizing directory relative with
  | zero => exact List.nodup_nil
  | succ depth ih =>
    rw [walkFiles_succ, List.nodup_flatMap]
    -- within one child by induction, across children by the names they begin with
    refine ⟨fun ⟨name, e⟩ _ => ?_, (pairwise_children h directory).imp ?_⟩
    · cases e with
      | file content =>
        rw [walkChild]
        split_ifs
        · exact List.nodup_nil
        · exact List.nodup_singleton _
      | directory =>
        rw [walkChild]
        split_ifs
        · exact List.nodup_nil
        · exact ih
    · rintro ⟨name, e⟩ ⟨name', e'⟩ hne names hmem hmem'
      have hpre := prefix_of_mem_walkChild hmem
      have hpre' := prefix_of_mem_walkChild hmem'
      have heq : relative ++ [name] = relative ++ [name'] := by
        refine (List.prefix_of_prefix_length_le hpre hpre' ?_).eq_of_length ?_ <;> simp
      exact hne (by simpa using heq)

theorem le_foldl_max {lengths : List Nat} {n greatest : Nat} (h : n ≤ greatest ∨ n ∈ lengths) :
    n ≤ lengths.foldl max greatest := by
  induction lengths generalizing greatest with
  | nil => simpa using h
  | cons length lengths ih =>
    apply ih
    rcases h with h | h
    · exact Or.inl (Nat.le_trans h (Nat.le_max_left _ _))
    · rcases List.mem_cons.mp h with rfl | h
      · exact Or.inl (Nat.le_max_right _ _)
      · exact Or.inr h

/-- The depth of a tree is the length of its longest location. -/
theorem length_le_depth {l : Location} (h : (t.find? l).isSome = true) : l.length ≤ t.depth := by
  by_cases hnil : l = []
  · rw [hnil]
    exact Nat.zero_le _
  · obtain ⟨e, he⟩ := Option.isSome_iff_exists.mp h
    rw [find?, if_neg hnil] at he
    exact le_foldl_max (Or.inr (List.mem_map.mpr ⟨_, mem_of_lookup he, rfl⟩))

/-- A walk that is deep enough finds all files that it comes to. -/
theorem WellFormed.mem_walkFiles_depth_iff (h : t.WellFormed) {inside : Location} :
    inside ∈ t.walkFiles drops (t.depth + 1) directory [] ↔
      t.IsReached drops directory [] inside := by
  rw [← List.nil_append inside, h.mem_walkFiles_iff, List.nil_append, and_iff_right_iff_imp]
  intro hreached
  obtain ⟨content, hfile⟩ := hasFile_iff.mp hreached.hasFile
  have hlength := length_le_depth (t := t) (l := directory ++ inside) (by rw [hfile]; rfl)
  rw [List.length_append] at hlength
  omega

/-- In trees in which it comes to the same files, a walk finds the same. -/
theorem WellFormed.perm_walkFiles {t' : Tree} (h : t.WellFormed) (h' : t'.WellFormed)
    (hreached : ∀ inside, t.IsReached drops directory [] inside ↔
      t'.IsReached drops directory [] inside) :
    (t.walkFiles drops (t.depth + 1) directory []).Perm
      (t'.walkFiles drops (t'.depth + 1) directory []) := by
  rw [List.perm_ext_iff_of_nodup (nodup_walkFiles h.nodup) (nodup_walkFiles h'.nodup)]
  intro inside
  rw [h.mem_walkFiles_depth_iff, h'.mem_walkFiles_depth_iff, hreached]

end Tree

namespace Target

variable {t : Target} {tree : Tree} {skip files : List Path} {p : Path}

/-- What is known of the paths that are enumerated for a target. -/
structure IsEnumerated (t : Target) (tree : Tree) (skip : List Path) (p : Path)
    (names : Location) : Prop where
  eq_ofNames : p = Path.ofNames names
  ne_nil : names ≠ []
  isName : ∀ s ∈ names, Path.IsName s
  notSkipped : t.isSkipped skip names = false
  exists_file : ∃ root content, tree.resolve t.sourceRoot = .ok root ∧
    tree.find? (root ++ names) = some (.file content)

/-- What the walk for a target leaves out: what the globs drop, and what has to be skipped. -/
def leavesOut (t : Target) (filter : Glob.Filter) (skip : List Path) (names : Location)
    (isDirectory : Bool) : Bool :=
  filter.drops names isDirectory || t.isSkipped skip names

/-- The files of a target are those that the walk finds, in ascending order. There are none if the
source root is no directory, or if some glob is none. -/
theorem enumerate_eq_ok_iff : t.enumerate tree skip = .ok files ↔
    ∃ root filter, tree.resolve t.sourceRoot = .ok root ∧ tree.hasDirectory root = true ∧
      t.filter = .ok filter ∧ files = sortBy Path.compare
        ((tree.walkFiles (t.leavesOut filter skip) (tree.depth + 1) root []).map Path.ofNames) := by
  unfold enumerate
  cases hroot : tree.resolve t.sourceRoot with
  | error e => simp [throw, throwThe, MonadExceptOf.throw]
  | ok root =>
    cases hdirectory : tree.hasDirectory root with
    | false => simp [hdirectory, throw, throwThe, MonadExceptOf.throw, bind, Except.bind]
    | true =>
      cases hfilter : t.filter with
      | error fault => simp [hdirectory, throw, throwThe, MonadExceptOf.throw]
      | ok filter =>
        simp only [hdirectory, Except.ok.injEq, exists_and_left, exists_eq_left', true_and]
        exact ⟨fun h => (Except.ok.inj h).symm, fun h => congrArg Except.ok h.symm⟩

/-- Files that the walk finds in ascending order are enumerated as they are found. -/
theorem enumerate_of_pairwise {root : Location} {filter : Glob.Filter}
    (hroot : tree.resolve t.sourceRoot = .ok root) (hdirectory : tree.hasDirectory root = true)
    (hfilter : t.filter = .ok filter)
    (hfiles : (tree.walkFiles (t.leavesOut filter skip) (tree.depth + 1) root []).map
      Path.ofNames = files)
    (hascending : files.Pairwise fun p q => (p.compare q != .gt) = true) :
    t.enumerate tree skip = .ok files := by
  refine enumerate_eq_ok_iff.mpr ⟨root, filter, hroot, hdirectory, hfilter, ?_⟩
  rw [hfiles, sortBy, List.mergeSort_of_pairwise hascending]

/-- What enumerating the files of a target comes down to. -/
theorem exists_of_enumerate (h : t.enumerate tree skip = .ok files) :
    ∃ root drops, tree.resolve t.sourceRoot = .ok root ∧
      (∀ names, drops names false = false → t.isSkipped skip names = false) ∧
      files = sortBy Path.compare
        ((tree.walkFiles drops (tree.depth + 1) root []).map Path.ofNames) := by
  obtain ⟨root, filter, hroot, -, -, hfiles⟩ := enumerate_eq_ok_iff.mp h
  refine ⟨root, t.leavesOut filter skip, hroot, fun names hdrops => ?_, hfiles⟩
  exact (Bool.or_eq_false_iff.mp hdrops).2

/-- What is known of an enumerated path. -/
theorem mem_enumerate (htree : tree.WellFormed) (h : t.enumerate tree skip = .ok files)
    (hp : p ∈ files) : ∃ names, t.IsEnumerated tree skip p names := by
  obtain ⟨root, drops, hroot, hdrops, rfl⟩ := exists_of_enumerate h
  obtain ⟨names, hnames, rfl⟩ := List.mem_map.mp (List.mem_mergeSort.mp hp)
  obtain ⟨inside, content, hne, rfl, hmem, hkept⟩ := Tree.mem_walkFiles hnames
  refine ⟨_, rfl, by simpa using hne, fun s hs => ?_, hdrops _ hkept, root, content, hroot, ?_⟩
  · exact (htree.named _ hmem).2 s (List.mem_append_right root (by simpa using hs))
  · simpa using htree.find?_eq_some hmem

/-- The files that a walk finds have different paths. -/
theorem pairwise_walkFiles (htree : tree.WellFormed) (drops : Location → Bool → Bool)
    (depth : Nat) (root : Location) :
    ((tree.walkFiles drops depth root []).map Path.ofNames).Pairwise fun p q =>
      p.same q = false := by
  have hname : ∀ names ∈ tree.walkFiles drops depth root [], ∀ s ∈ names, Path.IsName s := by
    intro names hnames s hs
    obtain ⟨inside, content, -, rfl, hmem, -⟩ := Tree.mem_walkFiles hnames
    exact (htree.named _ hmem).2 s (List.mem_append_right root (by simpa using hs))
  rw [List.pairwise_map]
  refine List.Pairwise.imp_of_mem ?_ (Tree.nodup_walkFiles htree.nodup)
  intro names names' hnames hnames' hne
  rw [← Bool.not_eq_true, Path.same_iff, Path.components_ofNames (hname names hnames),
    Path.components_ofNames (hname names' hnames')]
  exact fun heq => hne (Path.map_name_injective heq)

/-- Enumerated paths name different files. -/
theorem pairwise_enumerate (htree : tree.WellFormed) (h : t.enumerate tree skip = .ok files) :
    files.Pairwise fun p q => p.same q = false := by
  obtain ⟨root, drops, -, -, rfl⟩ := exists_of_enumerate h
  -- sorting does not matter, as being apart is symmetric
  refine List.Pairwise.perm (pairwise_walkFiles htree drops _ root)
    (List.mergeSort_perm _ _).symm ?_
  intro p q hpq
  rwa [Path.same_comm]

/-- The enumerated files are in strictly ascending order. -/
theorem ascending_enumerate (htree : tree.WellFormed) (h : t.enumerate tree skip = .ok files) :
    files.Pairwise fun p q => p.compare q = .lt := by
  have hapart := pairwise_enumerate htree h
  obtain ⟨root, drops, -, -, rfl⟩ := exists_of_enumerate h
  refine ((@pairwise_sortBy _ Path.compare _ _).and hapart).imp ?_
  rintro p q ⟨hle, hne⟩
  rw [← Bool.not_eq_true, ← Path.compare_eq_iff] at hne
  cases hcompare : p.compare q with
  | lt => rfl
  | eq => exact absurd hcompare hne
  | gt => simp [hcompare] at hle

end Target

end Filewise
