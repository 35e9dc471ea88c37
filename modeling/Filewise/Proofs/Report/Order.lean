import Filewise.Proofs.Path.Order
import Filewise.Report
import Mathlib.Data.List.Perm.Basic

/-!
# The order of entries in reports

Sorting is stable, so an ascending list is settled by how the elements that tie with
each other follow one another. Failures that do not tie can therefore arrive in any
order: the report is the same.

## Main results

* `tiedWith_sortBy`: sorting keeps the order of elements that tie.
* `Report.sortErrors_append_perm`: failures that do not tie may arrive in any order.
-/

namespace Filewise

open Std

/-! ### Stable sorting -/

section Sorting

variable {α : Type} {cmp : α → α → Ordering} {l l' : List α}

/-- The elements of a list in ascending order; those that tie keep their places. -/
def sortBy (cmp : α → α → Ordering) (l : List α) : List α := l.mergeSort fun a b => cmp a b != .gt

/-- The elements of a list that tie with another one. -/
def tiedWith (cmp : α → α → Ordering) (a : α) (l : List α) : List α := l.filter (cmp a · == .eq)

theorem bne_gt_iff (o : Ordering) : (o != .gt) = true ↔ o.isLE = true := by
  cases o <;> decide

theorem mem_tiedWith {a b : α} : b ∈ tiedWith cmp a l ↔ b ∈ l ∧ cmp a b = .eq := by
  rw [tiedWith, List.mem_filter, beq_iff_eq]

variable [TransCmp cmp]

theorem bne_gt_trans (a b c : α) (hab : (cmp a b != .gt) = true) (hbc : (cmp b c != .gt) = true) :
    (cmp a c != .gt) = true := by
  rw [bne_gt_iff] at *
  exact TransCmp.isLE_trans hab hbc

theorem bne_gt_total (a b : α) : (cmp a b != .gt || cmp b a != .gt) = true := by
  have hswap : cmp b a = (cmp a b).swap := OrientedCmp.eq_swap
  rw [hswap]
  cases cmp a b <;> rfl

theorem mem_tiedWith_self {a : α} : a ∈ tiedWith cmp a l ↔ a ∈ l := by
  rw [mem_tiedWith, and_iff_left ReflCmp.compare_self]

/-- Lists in which the same elements tie have the same elements. -/
theorem mem_iff_of_tiedWith_eq (h : ∀ a, tiedWith cmp a l = tiedWith cmp a l') (a : α) :
    a ∈ l ↔ a ∈ l' := by
  rw [← @mem_tiedWith_self _ cmp, h a, mem_tiedWith_self]

theorem pairwise_sortBy (l : List α) : (sortBy cmp l).Pairwise fun a b => (cmp a b).isLE = true :=
  (List.pairwise_mergeSort bne_gt_trans bne_gt_total l).imp fun h => (bne_gt_iff _).mp h

/-- Sorting keeps the order of elements that tie. -/
theorem tiedWith_sortBy (a : α) (l : List α) :
    tiedWith cmp a (sortBy cmp l) = tiedWith cmp a l := by
  have htied : (tiedWith cmp a l).Pairwise fun b c => (cmp b c != .gt) = true := by
    apply List.pairwise_of_forall_mem_list
    intro b hb c hc
    have hab := OrientedCmp.eq_symm (mem_tiedWith.mp hb).2
    rw [TransCmp.eq_trans hab (mem_tiedWith.mp hc).2]
    rfl
  -- what ties is in order already, so sorting leaves it a sublist
  have hsub := List.sublist_mergeSort bne_gt_trans bne_gt_total htied List.filter_sublist
  have hfilter := hsub.filter (cmp a · == .eq)
  rw [tiedWith, List.filter_filter] at hfilter
  simp only [Bool.and_self] at hfilter
  exact (hfilter.eq_of_length ((List.mergeSort_perm l _).filter _).length_eq.symm).symm

/-- Ascending lists in which the same elements tie, in the same order, are equal. -/
theorem eq_of_tiedWith_eq (hl : l.Pairwise fun a b => (cmp a b).isLE = true)
    (hl' : l'.Pairwise fun a b => (cmp a b).isLE = true)
    (h : ∀ a, tiedWith cmp a l = tiedWith cmp a l') : l = l' := by
  induction l generalizing l' with
  | nil =>
    cases l' with
    | nil => rfl
    | cons b l' =>
      exact absurd ((mem_iff_of_tiedWith_eq h b).mpr List.mem_cons_self) List.not_mem_nil
  | cons a l ih =>
    cases l' with
    | nil => exact absurd ((mem_iff_of_tiedWith_eq h a).mp List.mem_cons_self) List.not_mem_nil
    | cons b l' =>
      have hmem := mem_iff_of_tiedWith_eq h
      obtain ⟨ha, hrest⟩ := List.pairwise_cons.mp hl
      obtain ⟨hb, hrest'⟩ := List.pairwise_cons.mp hl'
      -- each head is in the other list, so neither comes before the other
      have hab : (cmp a b).isLE = true := by
        rcases List.mem_cons.mp ((hmem b).mpr List.mem_cons_self) with rfl | hmem
        · exact ReflCmp.isLE_rfl
        · exact ha b hmem
      have hba : (cmp b a).isLE = true := by
        rcases List.mem_cons.mp ((hmem a).mp List.mem_cons_self) with rfl | hmem
        · exact ReflCmp.isLE_rfl
        · exact hb a hmem
      have heq : cmp a b = .eq := OrientedCmp.isLE_antisymm hab hba
      obtain rfl : a = b := by
        have hhead := h a
        simp only [tiedWith, List.filter_cons, ReflCmp.compare_self, heq, beq_self_eq_true,
          if_true] at hhead
        exact (List.cons.inj hhead).1
      have htail : ∀ c, tiedWith cmp c l = tiedWith cmp c l' := by
        intro c
        have hc := h c
        simp only [tiedWith, List.filter_cons] at hc ⊢
        split_ifs at hc
        · exact (List.cons.inj hc).2
        · exact hc
      rw [ih hrest hrest' htail]

/-- Elements that do not tie may come in any order at the end of a list that is sorted. -/
theorem sortBy_append_perm {l₀ : List α} (h : l.Perm l')
    (hl : l.Pairwise fun a b => cmp a b ≠ .eq) : sortBy cmp (l₀ ++ l) = sortBy cmp (l₀ ++ l') := by
  apply eq_of_tiedWith_eq (pairwise_sortBy _) (pairwise_sortBy _)
  intro a
  -- at most one of the elements can tie with any given one
  have htied : (tiedWith cmp a l).length ≤ 1 := by
    by_contra hlength
    obtain ⟨b, c, rest, hrest⟩ : ∃ b c rest, tiedWith cmp a l = b :: c :: rest := by
      match hmatch : tiedWith cmp a l with
      | [] | [_] => simp [hmatch] at hlength
      | b :: c :: rest => exact ⟨b, c, rest, rfl⟩
    have hb := (mem_tiedWith.mp (hrest ▸ List.mem_cons_self)).2
    have hc := (mem_tiedWith.mp (hrest ▸ List.mem_cons_of_mem b List.mem_cons_self)).2
    have hpair := hl.sublist (List.filter_sublist (p := (cmp a · == .eq)))
    rw [← tiedWith, hrest] at hpair
    exact (List.pairwise_cons.mp hpair).1 c List.mem_cons_self
      (TransCmp.eq_trans (OrientedCmp.eq_symm hb) hc)
  have hperm : tiedWith cmp a l = tiedWith cmp a l' := by
    have hfilter : (tiedWith cmp a l).Perm (tiedWith cmp a l') := h.filter _
    match hmatch : tiedWith cmp a l with
    | [] => exact (List.nil_perm.mp (hmatch ▸ hfilter)).symm
    | [b] => exact (List.perm_singleton.mp (hmatch ▸ hfilter.symm)).symm
    | b :: c :: rest => simp [hmatch] at htied
  rw [tiedWith_sortBy, tiedWith_sortBy, tiedWith, tiedWith, List.filter_append, List.filter_append,
    ← tiedWith, ← tiedWith, hperm]
  rfl

/-- Elements that do not tie may come in any order in a list that is sorted. -/
theorem sortBy_perm (h : l.Perm l') (hl : l.Pairwise fun a b => cmp a b ≠ .eq) :
    sortBy cmp l = sortBy cmp l' := by
  rw [← List.nil_append l, ← List.nil_append l', sortBy_append_perm h hl]

end Sorting

/-! ### Failures -/

namespace UnitError

theorem transCmp_compareOptions {α : Type} (cmp : α → α → Ordering) [TransCmp cmp] :
    TransCmp (compareOptions cmp) where
  eq_swap {a b} := by
    cases a <;> cases b <;> first | rfl | exact @OrientedCmp.eq_swap _ cmp _ _ _
  isLE_trans {a b c} hab hbc := by
    cases a <;> cases b <;> cases c <;> first
      | rfl
      | exact hab
      | exact absurd hab Bool.false_ne_true
      | exact absurd hbc Bool.false_ne_true
      | exact @TransCmp.isLE_trans _ cmp _ _ _ _ hab hbc

instance : TransCmp compareTexts := inferInstanceAs (TransCmp fun s t : String => Ord.compare s t)

/-- Failures are ordered totally, though some tie. -/
instance : TransCmp UnitError.compare := by
  have := transCmp_compareOptions Path.compare
  have := transCmp_compareOptions compareTexts
  have htarget := transCmp_on compareTexts UnitError.target
  have hsource := transCmp_on (compareOptions Path.compare) UnitError.source
  have houtput := transCmp_on (compareOptions Path.compare) UnitError.output?
  have hkind := transCmp_on compareTexts UnitError.kind
  have htransformer := transCmp_on (compareOptions compareTexts)
    fun e : UnitError => e.error.transformer?
  exact inferInstanceAs <| TransCmp <|
    compareLex (fun a b => compareTexts (target a) (target b)) <|
    compareLex (fun a b => compareOptions Path.compare (source a) (source b)) <|
    compareLex (fun a b => compareOptions Path.compare (output? a) (output? b)) <|
    compareLex (fun a b => compareTexts (kind a) (kind b)) <|
    fun a b => compareOptions compareTexts a.error.transformer? b.error.transformer?

/-- Failures that tie belong to the same target and to the same source. -/
theorem same_of_compare_eq {a b : UnitError} (h : a.compare b = .eq) :
    a.target = b.target ∧ compareOptions Path.compare a.source b.source = .eq := by
  unfold UnitError.compare at h
  rw [Ordering.then_eq_eq, Ordering.then_eq_eq] at h
  exact ⟨LawfulEqOrd.eq_of_compare h.1, h.2.1⟩

end UnitError

/-- Failures that do not tie may arrive in any order after others that are there. -/
theorem Report.sortErrors_append_perm {errors errors' first : List UnitError}
    (h : errors.Perm errors') (hties : errors.Pairwise fun a b => a.compare b ≠ .eq) :
    sortErrors (first ++ errors) = sortErrors (first ++ errors') :=
  sortBy_append_perm h hties

end Filewise
