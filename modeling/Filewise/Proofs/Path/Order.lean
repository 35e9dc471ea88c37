import Filewise.Path
import Mathlib.Tactic.Common

/-!
# The order of paths

Paths are ordered by their components. The order is total, and two paths stand at the
same place in it exactly if they have the same components.

## Main results

* `Component.compareLists_eq`: component lists are ordered lexicographically.
* `Path.compare_eq_iff`: paths that are not apart in the order have the same components.
-/

namespace Filewise

open Std

/-- An order of what things are mapped to orders the things. -/
theorem transCmp_on {α β : Type} (cmp : β → β → Ordering) [TransCmp cmp] (f : α → β) :
    TransCmp fun a b => cmp (f a) (f b) where
  eq_swap := OrientedCmp.eq_swap
  isLE_trans := TransCmp.isLE_trans

namespace Component

/-- Components are ordered by their kind and then by their text. -/
theorem compare_eq :
    Component.compare = compareLex (compareOn Component.rank) (compareOn Component.text) := by
  funext a b
  cases a <;> cases b <;> simp [Component.compare, compareLex, compareOn, rank, text] <;> rfl

instance : TransCmp Component.compare := by
  rw [compare_eq]
  infer_instance

instance : LawfulEqCmp Component.compare where
  eq_of_compare {a b} h := by
    rw [compare_eq, compareLex_eq_eq] at h
    have hrank : a.rank = b.rank := LawfulEqOrd.eq_of_compare h.1
    have htext : a.text = b.text := LawfulEqOrd.eq_of_compare h.2
    cases a <;> cases b <;> simp_all [rank, text]

/-- Component lists are ordered lexicographically. -/
theorem compareLists_eq : compareLists = List.compareLex Component.compare := by
  funext as
  induction as with
  | nil => funext bs; cases bs <;> rfl
  | cons a as ih =>
    funext bs
    cases bs with
    | nil => rfl
    | cons b bs =>
      rw [compareLists, List.compareLex, ih]
      cases Component.compare a b <;> rfl

instance : TransCmp compareLists := by
  rw [compareLists_eq]
  infer_instance

instance : LawfulEqCmp compareLists := by
  rw [compareLists_eq]
  infer_instance

end Component

namespace Path

variable {p q r : Path}

theorem same_iff : p.same q = true ↔ p.components = q.components := by
  rw [same, beq_iff_eq]

theorem same_refl (p : Path) : p.same p = true := same_iff.mpr rfl

theorem same_comm : p.same q = q.same p := by
  rw [Bool.eq_iff_iff, same_iff, same_iff, eq_comm]

theorem same_trans (hpq : p.same q = true) (hqr : q.same r = true) : p.same r = true :=
  same_iff.mpr ((same_iff.mp hpq).trans (same_iff.mp hqr))

theorem startsWith_iff : p.startsWith q = true ↔ q.components <+: p.components := by
  rw [startsWith, List.isPrefixOf_iff_prefix]

instance : TransCmp Path.compare := transCmp_on Component.compareLists components

/-- Paths that are not apart in the order have the same components. -/
theorem compare_eq_iff : p.compare q = .eq ↔ p.same q = true := by
  rw [same_iff, compare, LawfulEqCmp.compare_eq_iff_eq]

/-- Paths that are apart in the order have different components. -/
theorem same_eq_false_of_compare {o : Ordering} (h : p.compare q = o) (ho : o ≠ .eq) :
    p.same q = false := by
  rw [← Bool.not_eq_true, ← compare_eq_iff, h]
  exact ho

end Path

/-- Places of a list whose members are told apart are one if these two are not. -/
theorem index_eq_of_pairwise {α : Type} {R : α → α → Prop} {l : List α} {i j : Nat} {a b : α}
    (h : l.Pairwise R) (ha : l[i]? = some a) (hb : l[j]? = some b) (hab : ¬R a b) (hba : ¬R b a) :
    i = j := by
  obtain ⟨hi, rfl⟩ := List.getElem?_eq_some_iff.mp ha
  obtain ⟨hj, rfl⟩ := List.getElem?_eq_some_iff.mp hb
  have hpairs := List.pairwise_iff_getElem.mp h
  rcases Nat.lt_trichotomy i j with hlt | heq | hlt
  · exact absurd (hpairs i j hi hj hlt) hab
  · exact heq
  · exact absurd (hpairs j i hj hi hlt) hba

end Filewise
