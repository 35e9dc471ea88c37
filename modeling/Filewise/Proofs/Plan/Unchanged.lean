import Filewise.Proofs.Plan.Planner
import Filewise.Proofs.Report.Order

/-!
# When a plan stays the same

A target looks at nothing but where its source root leads and which files stand below it
that do not have to be skipped. A plan looks at nothing but the files that are enumerated
for its targets. So a project plans the same for any trees that look alike to its targets.

## Main definitions

* `Target.SeesAlike`: trees look alike to a target.

## Main results

* `Target.SeesAlike.enumerate_eq`: the same files are enumerated for trees that look alike.
* `Project.plan_congr`: the same is planned for trees that look alike to all targets.
-/

namespace Filewise

variable {t : Target} {tree tree' : Tree} {skip : List Path}

namespace Target

/-- In two trees the source root of a target leads to the same place, and below it stand the
same files, but for places that have to be skipped. -/
structure SeesAlike (t : Target) (skip : List Path) (tree tree' : Tree) : Prop where
  resolve : tree.resolve t.sourceRoot = tree'.resolve t.sourceRoot
  hasDirectory : ∀ root, tree.resolve t.sourceRoot = .ok root →
    tree.hasDirectory root = tree'.hasDirectory root
  hasFile : ∀ root names, tree.resolve t.sourceRoot = .ok root →
    (∀ s ∈ names, Path.IsName s) → t.isSkipped skip names = false →
    tree.hasFile (root ++ names) = tree'.hasFile (root ++ names)

theorem SeesAlike.symm (h : t.SeesAlike skip tree tree') : t.SeesAlike skip tree' tree := by
  refine ⟨h.resolve.symm, fun root hroot => ?_, fun root names hroot hnames hkept => ?_⟩
  · exact (h.hasDirectory root (h.resolve.trans hroot)).symm
  · exact (h.hasFile root names (h.resolve.trans hroot) hnames hkept).symm

/-- A walk comes to the same files in trees that look alike. -/
theorem SeesAlike.isReached {drops : Location → Bool → Bool} {root inside : Location}
    (h : t.SeesAlike skip tree tree') (htree : tree.WellFormed)
    (hroot : tree.resolve t.sourceRoot = .ok root)
    (hdrops : ∀ names, drops names false = false → t.isSkipped skip names = false)
    (hreached : tree.IsReached drops root [] inside) : tree'.IsReached drops root [] inside := by
  have hkept := hreached.kept
  rw [List.nil_append] at hkept
  have hnames := htree.isName_of_hasFile hreached.hasFile
  refine ⟨hreached.ne_nil, ?_, hreached.kept, hreached.entered⟩
  rw [← h.hasFile root inside hroot hnames (hdrops inside hkept)]
  exact hreached.hasFile

/-- A walk finds the same files in trees that look alike, in whatever order. -/
theorem SeesAlike.perm_walkFiles {drops : Location → Bool → Bool} {root : Location}
    (h : t.SeesAlike skip tree tree') (htree : tree.WellFormed) (htree' : tree'.WellFormed)
    (hroot : tree.resolve t.sourceRoot = .ok root)
    (hdrops : ∀ names, drops names false = false → t.isSkipped skip names = false) :
    (tree.walkFiles drops (tree.depth + 1) root []).Perm
      (tree'.walkFiles drops (tree'.depth + 1) root []) := by
  refine htree.perm_walkFiles htree' fun inside => ⟨?_, ?_⟩
  · exact h.isReached htree hroot hdrops
  · exact h.symm.isReached htree' (h.resolve.symm.trans hroot) hdrops

/-- The same files are enumerated for trees that look alike. -/
theorem SeesAlike.enumerate_eq (h : t.SeesAlike skip tree tree') (htree : tree.WellFormed)
    (htree' : tree'.WellFormed) : t.enumerate tree skip = t.enumerate tree' skip := by
  unfold enumerate
  rw [← h.resolve]
  cases hroot : tree.resolve t.sourceRoot with
  | error e => rfl
  | ok root =>
    dsimp only
    rw [← h.hasDirectory root hroot]
    cases t.filter with
    | error fault => rfl
    | ok filter =>
      dsimp only
      have hdrops : ∀ names, t.leavesOut filter skip names false = false →
          t.isSkipped skip names = false := fun names hnames => (Bool.or_eq_false_iff.mp hnames).2
      have hperm := h.perm_walkFiles htree htree' hroot hdrops
      have hapart : ((tree.walkFiles (t.leavesOut filter skip) (tree.depth + 1) root []).map
          Path.ofNames).Pairwise fun p q => p.compare q ≠ .eq := by
        refine (pairwise_walkFiles htree _ _ root).imp fun hne heq => ?_
        rw [Path.compare_eq_iff.mp heq] at hne
        simp at hne
      split_ifs
      · rfl
      · -- sorting brings the files into the same order, as no two of them tie
        exact congrArg Except.ok (sortBy_perm (hperm.map Path.ofNames) hapart)

end Target

/-- The same is planned for trees that look alike to all targets. -/
theorem Project.plan_congr [Schema.Compiler] {project : Project} (htree : tree.WellFormed)
    (htree' : tree'.WellFormed)
    (h : ∀ t ∈ project.config.targets, t.SeesAlike project.skip tree tree') :
    project.plan tree = project.plan tree' := by
  have hfold : project.config.targets.zipIdx.foldl (fun p entry =>
        p.planTarget project.registry tree project.skip entry.2 entry.1) Planner.empty =
      project.config.targets.zipIdx.foldl (fun p entry =>
        p.planTarget project.registry tree' project.skip entry.2 entry.1) Planner.empty := by
    apply List.foldl_ext
    intro p entry hentry
    have hsame := h entry.1 (List.fst_mem_of_mem_zipIdx hentry)
    rw [Planner.planTarget, Planner.planTarget, hsame.enumerate_eq htree htree']
  exact congrArg Planner.result hfold

end Filewise
