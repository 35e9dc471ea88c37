import Filewise.Plan.Planner
import Filewise.Proofs.Path.Order
import Mathlib.Data.List.Induction

/-!
# Groups of units that go to the same place

Units are gathered by their output paths. The groups are in strictly ascending order of
their paths, so units of different groups go to different places. Settling the groups
plans the units that are alone in theirs and retains their sources once more each; each
of the other groups becomes one error.

## Main definitions

* `Planner.OutputGroup.unit?`: the unit of a group that has no other one.
* `Planner.OutputGroup.collision?`: the error of a group that has other ones.
* `Planner.Ascending`: groups in strictly ascending order.
* `Planner.Partitions`: each group holds all the units that go to its path.

## Main results

* `Planner.gathered_groups`, `Planner.partitions_groups`: how units are gathered.
* `Planner.settleAll_eq`, `Planner.errors_settleAll`: what settling the groups plans, and
  what it complains of.
* `Planner.Gathered.settled`: different units that are settled go to different places.
-/

namespace Filewise.Planner

open Std

variable {u v : PlannedUnit} {g : OutputGroup} {groups' : List OutputGroup}
  {units : List PlannedUnit}

/-! ### Gathering -/

/-- Groups in strictly ascending order of their paths. -/
def Ascending (gs : List OutputGroup) : Prop :=
  gs.Pairwise fun g h => g.path.compare h.path = .lt

/-- A group holds units with its path only. -/
def OutputGroup.IsUniform (g : OutputGroup) : Prop :=
  ∀ u ∈ g.units, u.outputPath.same g.path = true

/-- The groups after a unit was added are the old ones, but the one with its path has the unit;
if there is none, it is new. -/
theorem mem_addToGroup (h : Ascending groups') (hg : g ∈ addToGroup u groups') :
    (g ∈ groups' ∧ u.outputPath.same g.path = false) ∨
      (g = ⟨u.outputPath, [u]⟩ ∧ ∀ old ∈ groups', u.outputPath.same old.path = false) ∨
      ∃ old ∈ groups', u.outputPath.same old.path = true ∧
        g = { old with units := old.units ++ [u] } := by
  induction groups' with
  | nil => exact Or.inr (Or.inl ⟨List.mem_singleton.mp hg, by simp⟩)
  | cons first rest ih =>
    obtain ⟨hfirst, hrest⟩ := List.pairwise_cons.mp h
    unfold addToGroup at hg
    cases hcompare : u.outputPath.compare first.path with
    | lt =>
      -- all groups come after the new one
      have hapart : ∀ old ∈ first :: rest, u.outputPath.same old.path = false := by
        intro old hold
        rcases List.mem_cons.mp hold with rfl | hold
        · exact Path.same_eq_false_of_compare hcompare (by simp)
        · have hlt := TransCmp.lt_trans hcompare (hfirst old hold)
          exact Path.same_eq_false_of_compare hlt (by simp)
      rw [hcompare] at hg
      rcases List.mem_cons.mp hg with rfl | hg
      · exact Or.inr (Or.inl ⟨rfl, hapart⟩)
      · exact Or.inl ⟨hg, hapart g hg⟩
    | eq =>
      rw [hcompare] at hg
      rcases List.mem_cons.mp hg with rfl | hg
      · exact Or.inr (Or.inr ⟨first, List.mem_cons_self, Path.compare_eq_iff.mp hcompare, rfl⟩)
      · have hlt := TransCmp.lt_of_eq_of_lt hcompare (hfirst g hg)
        exact Or.inl ⟨List.mem_cons_of_mem _ hg, Path.same_eq_false_of_compare hlt (by simp)⟩
    | gt =>
      -- the first group is apart from the unit, which goes to the others
      have hapart := Path.same_eq_false_of_compare hcompare (by simp)
      rw [hcompare] at hg
      rcases List.mem_cons.mp hg with rfl | hg
      · exact Or.inl ⟨List.mem_cons_self, hapart⟩
      · rcases ih hrest hg with ⟨hg, hsame⟩ | ⟨hg, hnew⟩ | ⟨old, hold, hg⟩
        · exact Or.inl ⟨List.mem_cons_of_mem _ hg, hsame⟩
        · exact Or.inr (Or.inl ⟨hg, List.forall_mem_cons.mpr ⟨hapart, hnew⟩⟩)
        · exact Or.inr (Or.inr ⟨old, List.mem_cons_of_mem _ hold, hg⟩)

/-- A unit finds its group, and no group gets lost. -/
theorem exists_mem_addToGroup (u : PlannedUnit) (groups' : List OutputGroup) :
    (∃ g ∈ addToGroup u groups', u.outputPath.same g.path = true) ∧
      ∀ old ∈ groups', ∃ g ∈ addToGroup u groups', g.path = old.path := by
  induction groups' with
  | nil => exact ⟨⟨_, List.mem_cons_self, Path.same_refl _⟩, by simp⟩
  | cons first rest ih =>
    obtain ⟨⟨own, hown, hsame⟩, hkept⟩ := ih
    unfold addToGroup
    cases hcompare : u.outputPath.compare first.path with
    | lt =>
      exact ⟨⟨_, List.mem_cons_self, Path.same_refl _⟩,
        fun old hold => ⟨old, List.mem_cons_of_mem _ hold, rfl⟩⟩
    | eq =>
      refine ⟨⟨_, List.mem_cons_self, Path.compare_eq_iff.mp hcompare⟩, fun old hold => ?_⟩
      rcases List.mem_cons.mp hold with rfl | hold
      · exact ⟨_, List.mem_cons_self, rfl⟩
      · exact ⟨old, List.mem_cons_of_mem _ hold, rfl⟩
    | gt =>
      refine ⟨⟨own, List.mem_cons_of_mem _ hown, hsame⟩, fun old hold => ?_⟩
      rcases List.mem_cons.mp hold with rfl | hold
      · exact ⟨old, List.mem_cons_self, rfl⟩
      · obtain ⟨g, hg, hpath⟩ := hkept old hold
        exact ⟨g, List.mem_cons_of_mem _ hg, hpath⟩

/-- Groups stay in strictly ascending order when a unit is added. -/
theorem ascending_addToGroup (h : Ascending groups') : Ascending (addToGroup u groups') := by
  induction groups' with
  | nil => exact List.pairwise_singleton _ _
  | cons first rest ih =>
    obtain ⟨hfirst, hrest⟩ := List.pairwise_cons.mp h
    unfold addToGroup
    cases hcompare : u.outputPath.compare first.path with
    | lt =>
      refine List.pairwise_cons.mpr ⟨fun g hg => ?_, h⟩
      rcases List.mem_cons.mp hg with rfl | hg
      · exact hcompare
      · exact TransCmp.lt_trans hcompare (hfirst g hg)
    | eq => exact List.pairwise_cons.mpr ⟨hfirst, hrest⟩
    | gt =>
      refine List.pairwise_cons.mpr ⟨fun g hg => ?_, ih hrest⟩
      rcases mem_addToGroup hrest hg with ⟨hg, -⟩ | ⟨rfl, -⟩ | ⟨old, hold, -, rfl⟩
      · exact hfirst g hg
      · exact OrientedCmp.lt_of_gt hcompare
      · exact hfirst old hold

/-- What is known of the groups of some units. -/
structure Gathered (units : List PlannedUnit) (gs : List OutputGroup) : Prop where
  ascending : Ascending gs
  uniform : ∀ g ∈ gs, g.IsUniform
  mem : ∀ g ∈ gs, ∀ u ∈ g.units, u ∈ units

theorem Gathered.addToGroup (h : Gathered units groups') (u : PlannedUnit) :
    Gathered (units ++ [u]) (addToGroup u groups') := by
  refine ⟨ascending_addToGroup h.ascending, fun g hg v hv => ?_, fun g hg v hv => ?_⟩
  · rcases mem_addToGroup h.ascending hg with ⟨hg, -⟩ | ⟨rfl, -⟩ | ⟨old, hold, hsame, rfl⟩
    · exact h.uniform g hg v hv
    · obtain rfl := List.mem_singleton.mp hv
      exact Path.same_refl _
    · rcases List.mem_append.mp hv with hv | hv
      · exact h.uniform old hold v hv
      · obtain rfl := List.mem_singleton.mp hv
        exact hsame
  · rcases mem_addToGroup h.ascending hg with ⟨hg, -⟩ | ⟨rfl, -⟩ | ⟨old, hold, -, rfl⟩
    · exact List.mem_append_left _ (h.mem g hg v hv)
    · exact List.mem_append_right _ hv
    · rcases List.mem_append.mp hv with hv | hv
      · exact List.mem_append_left _ (h.mem old hold v hv)
      · exact List.mem_append_right _ hv

/-- Units are gathered by their output paths. -/
theorem gathered_groups (units : List PlannedUnit) : Gathered units (groups units) := by
  unfold groups
  induction units using List.reverseRecOn with
  | nil => exact ⟨List.Pairwise.nil, by simp, by simp⟩
  | append_singleton units u ih =>
    rw [List.foldl_append]
    exact ih.addToGroup u

/-- Each group holds all the units that go to its path, in order, and every unit has a group. -/
structure Partitions (units : List PlannedUnit) (gs : List OutputGroup) : Prop
    extends Gathered units gs where
  units_eq : ∀ g ∈ gs, g.units = units.filter (·.outputPath.same g.path)
  nonempty : ∀ g ∈ gs, g.units ≠ []
  cover : ∀ u ∈ units, ∃ g ∈ gs, u.outputPath.same g.path = true

theorem Partitions.addToGroup (h : Partitions units groups') (u : PlannedUnit) :
    Partitions (units ++ [u]) (addToGroup u groups') := by
  refine ⟨h.toGathered.addToGroup u, fun g hg => ?_, fun g hg => ?_, fun v hv => ?_⟩
  · rw [List.filter_append]
    rcases mem_addToGroup h.ascending hg with ⟨hg, hsame⟩ | ⟨rfl, hnew⟩ | ⟨old, hold, hsame, rfl⟩
    · rw [h.units_eq g hg, List.filter_cons_of_neg (by simp [hsame]), List.filter_nil,
        List.append_nil]
    · -- a unit that was there would have a group with this path
      have hnone : units.filter (·.outputPath.same u.outputPath) = [] := by
        rw [List.filter_eq_nil_iff]
        intro v hv hvu
        obtain ⟨old, hold, hvold⟩ := h.cover v hv
        have hsame := Path.same_trans (Path.same_comm ▸ hvu) hvold
        rw [hnew old hold] at hsame
        simp at hsame
      simp [hnone, Path.same_refl]
    · simp [h.units_eq old hold, hsame]
  · rcases mem_addToGroup h.ascending hg with ⟨hg, -⟩ | ⟨rfl, -⟩ | ⟨old, -, -, rfl⟩
    · exact h.nonempty g hg
    · simp
    · simp
  · obtain ⟨hown, hkept⟩ := exists_mem_addToGroup u groups'
    rcases List.mem_append.mp hv with hv | hv
    · obtain ⟨old, hold, hsame⟩ := h.cover v hv
      obtain ⟨g, hg, hpath⟩ := hkept old hold
      exact ⟨g, hg, hpath ▸ hsame⟩
    · obtain rfl := List.mem_singleton.mp hv
      exact hown

/-- The units that go to one path are in one group. -/
theorem partitions_groups (units : List PlannedUnit) : Partitions units (groups units) := by
  unfold groups
  induction units using List.reverseRecOn with
  | nil => exact ⟨⟨List.Pairwise.nil, by simp, by simp⟩, by simp, by simp, by simp⟩
  | append_singleton units u ih =>
    rw [List.foldl_append]
    exact ih.addToGroup u

/-! ### Settling -/

/-- The unit of a group that has no other one. -/
def OutputGroup.unit? (g : OutputGroup) : Option PlannedUnit :=
  match g.units with
  | [u] => some u
  | _ => none

theorem OutputGroup.unit?_eq_some_iff : g.unit? = some u ↔ g.units = [u] := by
  rcases hunits : g.units with _ | ⟨v, _ | ⟨w, rest⟩⟩ <;> simp [unit?, hunits]

theorem OutputGroup.mem_of_unit? (h : g.unit? = some u) : u ∈ g.units := by
  rw [unit?_eq_some_iff.mp h]
  exact List.mem_singleton_self u

/-- The units that settling groups plans. -/
def settled (gs : List OutputGroup) : List PlannedUnit := gs.filterMap OutputGroup.unit?

/-- Sources that some units retain once more each. -/
def retainAll (units : List PlannedUnit) (sources : List Source) : List Source :=
  units.foldl (fun sources u => sources.modify u.source Source.retain) sources

theorem settle_eq (target : String) (p : Planner) (g : OutputGroup) :
    (settle target p g).units = p.units ++ g.unit?.toList ∧
      (settle target p g).sources = retainAll g.unit?.toList p.sources := by
  rcases hunits : g.units with _ | ⟨u, _ | ⟨v, rest⟩⟩ <;>
    simp [settle, OutputGroup.unit?, hunits, retainAll, fail]

/-- Settling groups plans the units that are alone in theirs and retains their sources. -/
theorem settleAll_eq (target : String) (p : Planner) (gs : List OutputGroup) :
    (gs.foldl (settle target) p).units = p.units ++ settled gs ∧
      (gs.foldl (settle target) p).sources = retainAll (settled gs) p.sources := by
  induction gs generalizing p with
  | nil => exact ⟨(List.append_nil _).symm, rfl⟩
  | cons g gs ih =>
    obtain ⟨hunits, hsources⟩ := settle_eq target p g
    obtain ⟨hunits', hsources'⟩ := ih (settle target p g)
    have hsettled : settled (g :: gs) = g.unit?.toList ++ settled gs := by
      unfold settled
      cases hunit : g.unit? with
      | none => rw [List.filterMap_cons_none hunit, Option.toList_none, List.nil_append]
      | some u => rw [List.filterMap_cons_some hunit, Option.toList_some, List.singleton_append]
    rw [List.foldl_cons, hunits', hunits, hsources', hsources, hsettled, List.append_assoc]
    exact ⟨rfl, by rw [retainAll, retainAll, retainAll, List.foldl_append]⟩

/-- Settled units are in strictly ascending order of their output paths. -/
theorem Gathered.ascending_settled (h : Gathered units groups') :
    (Planner.settled groups').Pairwise fun u v => u.outputPath.compare v.outputPath = .lt := by
  unfold Planner.settled
  rw [List.pairwise_filterMap]
  refine List.Pairwise.imp_of_mem ?_ h.ascending
  intro g g' hg hg' hlt u hu v hv
  have hug : u.outputPath.compare g.path = .eq :=
    Path.compare_eq_iff.mpr (h.uniform g hg u (OutputGroup.mem_of_unit? hu))
  have hvg : g'.path.compare v.outputPath = .eq :=
    Path.compare_eq_iff.mpr (Path.same_comm ▸ h.uniform g' hg' v (OutputGroup.mem_of_unit? hv))
  exact TransCmp.lt_of_lt_of_eq (TransCmp.lt_of_eq_of_lt hug hlt) hvg

/-- Settled units were gathered, and different ones go to different places. -/
theorem Gathered.settled (h : Gathered units groups') :
    (∀ u ∈ settled groups', u ∈ units) ∧
      (settled groups').Pairwise fun u v => u.outputPath.same v.outputPath = false := by
  refine ⟨fun u hu => ?_, h.ascending_settled.imp fun hlt => ?_⟩
  · obtain ⟨g, hg, hgu⟩ := List.mem_filterMap.mp hu
    exact h.mem g hg u (OutputGroup.mem_of_unit? hgu)
  · exact Path.same_eq_false_of_compare hlt (by simp)

/-! ### Retained sources -/

/-- What retaining a source once more does not change. -/
theorem getElem?_modify_retain (sources : List Source) (i k : Nat) :
    (sources.modify i Source.retain)[k]? =
      sources[k]?.map fun s => if i = k then s.retain else s := by
  rw [List.getElem?_modify]
  split_ifs <;> cases sources[k]? <;> rfl

/-- Each source is retained once for each of the units that it belongs to. -/
theorem getElem?_retainAll (units : List PlannedUnit) (sources : List Source) (k : Nat) :
    (retainAll units sources)[k]? = sources[k]?.map fun s =>
      { s with users := s.users + units.countP (·.source == k) } := by
  induction units generalizing sources with
  | nil => simp [retainAll]
  | cons u units ih =>
    have hfold : retainAll (u :: units) sources =
        retainAll units (sources.modify u.source Source.retain) := rfl
    rw [hfold, ih, getElem?_modify_retain, Option.map_map, List.countP_cons]
    congr 1
    funext s
    by_cases hk : u.source = k
    · simp [hk, Source.retain, Nat.add_assoc, Nat.add_comm 1]
    · simp [hk]

/-! ### Collisions -/

/-- The error of a group that has several units, or none. -/
def OutputGroup.collision? (target : String) (shown : PlannedUnit → Path) (g : OutputGroup) :
    Option UnitError :=
  match g.units with
  | [_] => none
  | units => some ⟨target, none, .outputCollision g.path (units.map shown)⟩

theorem OutputGroup.collision?_eq_some_iff {target : String} {shown : PlannedUnit → Path}
    {e : UnitError} : g.collision? target shown = some e ↔
      (∀ u, g.units ≠ [u]) ∧ e = ⟨target, none, .outputCollision g.path (g.units.map shown)⟩ := by
  rcases hunits : g.units with _ | ⟨v, _ | ⟨w, rest⟩⟩ <;>
    simp [collision?, hunits, eq_comm]

/-- Retained sources are shown as before. -/
theorem shownSource_settle (target : String) (p : Planner) (g : OutputGroup) :
    (settle target p g).shownSource = p.shownSource := by
  funext u
  unfold shownSource
  rw [(settle_eq target p g).2, getElem?_retainAll]
  cases p.sources[u.source]? <;> rfl

/-- Settling groups complains of those that have several units, in their order. -/
theorem errors_settleAll (target : String) (p : Planner) (gs : List OutputGroup) :
    (gs.foldl (settle target) p).errors =
      p.errors ++ gs.filterMap (OutputGroup.collision? target p.shownSource) := by
  induction gs generalizing p with
  | nil => exact (List.append_nil _).symm
  | cons g gs ih =>
    have hsettle : (settle target p g).errors =
        p.errors ++ (g.collision? target p.shownSource).toList := by
      rcases hunits : g.units with _ | ⟨u, _ | ⟨v, rest⟩⟩ <;>
        simp [settle, OutputGroup.collision?, hunits, fail]
    rw [List.foldl_cons, ih, hsettle, shownSource_settle, List.append_assoc]
    cases hcollision : g.collision? target p.shownSource with
    | none => rw [List.filterMap_cons_none hcollision, Option.toList_none, List.nil_append]
    | some e => rw [List.filterMap_cons_some hcollision, Option.toList_some, List.singleton_append]

/-- Settling groups forgets no validation. -/
theorem cache_settleAll (target : String) (p : Planner) (gs : List OutputGroup) :
    (gs.foldl (settle target) p).cache = p.cache := by
  induction gs generalizing p with
  | nil => rfl
  | cons g gs ih =>
    rw [List.foldl_cons, ih]
    rcases hunits : g.units with _ | ⟨u, _ | ⟨v, rest⟩⟩ <;> simp [settle, hunits, fail]

end Filewise.Planner
