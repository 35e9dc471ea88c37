import Filewise.Dict
import Mathlib.Data.List.Basic
import Mathlib.Tactic.Common

/-!
# What dictionaries hold

A dictionary lists its entries in ascending order of the keys, so it is the same whatever the order
in which the entries came, and no key comes twice. An overlay answers with its upper part where that
has the key, and otherwise with the lower one. Without one of its keys a dictionary answers for all
other keys as before.

## Main definitions

* `Dict.erase`: a dictionary without a key.

## Main results

* `Dict.ofList_eq_self`: the dictionary of entries that are in order.
* `Dict.ofList_eq_of_perm`: the order of entries with different keys does not matter.
* `Dict.find?_overlay`: what an overlay answers.
* `Dict.find?_erase_of_ne`: what a dictionary answers without one of its keys.
-/

namespace Filewise.Dict

variable {α β : Type} {d e : Dict α} {key other : String} {a : α} {entry : String × α}

/-! ### Dictionaries in order -/

instance (d : Dict α) : Decidable d.Ordered :=
  inferInstanceAs (Decidable (List.Pairwise _ _))

/-- A key behind all others is added at the end. -/
theorem insert_eq_append {key : String} (h : ∀ k ∈ d.keys, k < key) (a : α) :
    d.insert key a = d ++ [(key, a)] := by
  induction d with
  | nil => rfl
  | cons entry rest ih =>
    obtain ⟨k, b⟩ := entry
    have hk : k < key := h k List.mem_cons_self
    have hne : key ≠ k := by
      rintro rfl
      exact String.lt_irrefl _ hk
    rw [insert, if_neg (String.lt_asymm hk), if_neg hne,
      ih fun k' hk' => h k' (List.mem_cons_of_mem _ hk')]
    rfl

/-- Entries behind those of a dictionary are added at the end. -/
theorem overlay_eq_append (h : Ordered (d ++ e)) : d.overlay e = d ++ e := by
  induction e generalizing d with
  | nil => exact (List.append_nil d).symm
  | cons entry rest ih =>
    obtain ⟨key, a⟩ := entry
    have hbehind : ∀ k ∈ d.keys, k < key := by
      intro k hk
      rw [Ordered, keys, List.map_append, List.pairwise_append] at h
      exact h.2.2 k hk key List.mem_cons_self
    have hstep : overlay (d ++ [(key, a)]) rest = d ++ [(key, a)] ++ rest := ih (by simpa using h)
    calc d.overlay ((key, a) :: rest) = (d.insert key a).overlay rest := rfl
      _ = d ++ (key, a) :: rest := by
        rw [insert_eq_append hbehind, hstep, List.append_assoc, List.singleton_append]

/-- The dictionary of entries that are in order. -/
theorem ofList_eq_self (h : d.Ordered) : ofList d = d :=
  overlay_eq_append (d := []) h

/-- An entry with a new key is put between the others. -/
theorem insert_perm {key : String} (h : key ∉ d.keys) (a : α) :
    (d.insert key a).Perm ((key, a) :: d) := by
  induction d with
  | nil => exact .refl _
  | cons entry rest ih =>
    obtain ⟨k, b⟩ := entry
    have hkey : key ≠ k ∧ key ∉ keys rest := by simpa [keys] using h
    rw [insert, if_neg hkey.1]
    split
    · exact .refl _
    · exact ((ih hkey.2).cons _).trans (List.Perm.swap _ _ _)

/-- Entries with new keys, each once, are all stored. -/
theorem overlay_perm (h : (d.keys ++ e.keys).Nodup) : (d.overlay e).Perm (d ++ e) := by
  induction e generalizing d with
  | nil => exact .of_eq (List.append_nil d).symm
  | cons entry rest ih =>
    obtain ⟨key, a⟩ := entry
    have hkey : key ∉ d.keys := fun hmem =>
      (List.nodup_append.mp h).2.2 key hmem key List.mem_cons_self rfl
    have hinsert := insert_perm hkey a
    have hrest : (keys (d.insert key a) ++ keys rest).Nodup := by
      refine (List.Perm.nodup_iff ?_).mp h
      exact List.perm_middle.trans ((hinsert.map Prod.fst).symm.append_right _)
    exact (ih hrest).trans ((hinsert.append_right rest).trans List.perm_middle.symm)

/-- The order of entries with different keys does not matter. -/
theorem ofList_eq_of_perm (hperm : d.Perm e) (hnodup : d.keys.Nodup) : ofList d = ofList e := by
  have hd : (ofList d).Perm d := overlay_perm hnodup
  have he : (ofList e).Perm e := overlay_perm ((hperm.map Prod.fst).nodup_iff.mp hnodup)
  refine ((hd.trans hperm).trans he.symm).eq_of_pairwise (fun a b _ _ hab hba => ?_)
    (List.pairwise_map.mp (ordered_ofList d)) (List.pairwise_map.mp (ordered_ofList e))
  exact absurd hba (String.lt_asymm hab)

/-- No key comes twice. -/
theorem Ordered.nodup (h : d.Ordered) : d.keys.Nodup :=
  List.Pairwise.imp (fun {a b} (hlt : a < b) (heq : a = b) => String.lt_irrefl b (heq ▸ hlt)) h

theorem ordered_map (f : α → β) : Ordered (d.map fun (k, a) => (k, f a)) ↔ d.Ordered := by
  simp [Ordered, keys, Function.comp_def]

/-! ### Entries and answers -/

theorem mem_of_find? (h : d.find? key = some a) : (key, a) ∈ d := by
  induction d with
  | nil => simp [find?] at h
  | cons first rest ih =>
    obtain ⟨k, b⟩ := first
    unfold find? at h
    split_ifs at h with hk
    · rw [hk, Option.some_inj.mp h]
      exact List.mem_cons_self
    · exact List.mem_cons_of_mem _ (ih h)

/-- An entry that is there after an insertion was inserted or was there before. -/
theorem mem_of_mem_insert (h : entry ∈ d.insert key a) : entry = (key, a) ∨ entry ∈ d := by
  induction d with
  | nil => exact Or.inl (List.mem_singleton.mp h)
  | cons first rest ih =>
    obtain ⟨k, b⟩ := first
    unfold insert at h
    split_ifs at h with hlt heq
    · exact List.mem_cons.mp h
    · exact (List.mem_cons.mp h).imp_right (List.mem_cons_of_mem _)
    · rcases List.mem_cons.mp h with rfl | h
      · exact Or.inr List.mem_cons_self
      · exact (ih h).imp_right (List.mem_cons_of_mem _)

/-- An entry of an overlay comes from one of its parts. -/
theorem mem_of_mem_overlay (h : entry ∈ d.overlay e) : entry ∈ d ∨ entry ∈ e := by
  induction e generalizing d with
  | nil => exact Or.inl h
  | cons first rest ih =>
    obtain ⟨k, b⟩ := first
    rcases ih h with h | h
    · rcases mem_of_mem_insert h with rfl | h
      · exact Or.inr List.mem_cons_self
      · exact Or.inl h
    · exact Or.inr (List.mem_cons_of_mem _ h)

theorem find?_eq_none_iff : d.find? key = none ↔ key ∉ d.keys := by
  induction d with
  | nil => simp [keys]
  | cons first rest ih =>
    obtain ⟨k, b⟩ := first
    rw [find?_cons, keys, List.map_cons, List.mem_cons, not_or]
    split_ifs with hk
    · simp [hk]
    · simpa [keys, Ne.symm hk] using ih

theorem contains_iff : d.contains key = true ↔ key ∈ d.keys := by
  rw [contains, Option.isSome_iff_ne_none, ne_eq, find?_eq_none_iff, not_not]

theorem mem_keys_iff : key ∈ d.keys ↔ ∃ a, d.find? key = some a := by
  rw [← contains_iff, contains, Option.isSome_iff_exists]

/-- Where no key comes twice, each entry is what its key answers. -/
theorem find?_eq_some_iff_of_nodup (h : d.keys.Nodup) :
    d.find? key = some a ↔ (key, a) ∈ d := by
  refine ⟨mem_of_find?, fun hmem => ?_⟩
  induction d with
  | nil => simp at hmem
  | cons first rest ih =>
    obtain ⟨k, b⟩ := first
    obtain ⟨hk, hrest⟩ := List.nodup_cons.mp h
    rw [find?_cons]
    rcases List.mem_cons.mp hmem with heq | hmem
    · simp [(Prod.mk.inj heq).1, (Prod.mk.inj heq).2]
    · -- the first key is none of the others
      have hne : k ≠ key := by
        rintro rfl
        exact hk (List.mem_map.mpr ⟨(k, a), hmem, rfl⟩)
      rw [if_neg hne]
      exact ih hrest hmem

/-- Where the keys are in order, each entry is what its key answers. -/
theorem Ordered.find?_eq_some_iff (h : d.Ordered) : d.find? key = some a ↔ (key, a) ∈ d :=
  find?_eq_some_iff_of_nodup h.nodup

/-- An overlay answers with its upper part if that has the key, and with the lower one if not. -/
theorem find?_overlay (h : e.Ordered) (d : Dict α) (key : String) :
    (d.overlay e).find? key = (e.find? key).or (d.find? key) := by
  induction e generalizing d with
  | nil => rfl
  | cons first rest ih =>
    obtain ⟨k, b⟩ := first
    obtain ⟨hk, hrest⟩ := List.pairwise_cons.mp h
    have hstep : (d.overlay ((k, b) :: rest)).find? key =
        (find? rest key).or ((d.insert k b).find? key) := ih hrest (d.insert k b)
    rw [hstep, find?_insert, find?_cons]
    split_ifs with hkey
    · -- no later entry has the key
      have hnone : find? rest key = none :=
        find?_eq_none_iff.mpr fun hmem => absurd (hk key hmem) (hkey ▸ String.lt_irrefl k)
      rw [hnone]
      rfl
    · rfl

/-! ### A dictionary without a key -/

/-- A dictionary without a key. -/
def erase (d : Dict α) (key : String) : Dict α := d.filter fun entry => entry.1 ≠ key

theorem find?_erase_of_ne (h : other ≠ key) : (d.erase key).find? other = d.find? other := by
  induction d with
  | nil => rfl
  | cons first rest ih =>
    obtain ⟨k, b⟩ := first
    rw [erase] at ih ⊢
    by_cases hk : k = key
    · have hne : k ≠ other := fun heq => h (heq.symm.trans hk)
      rw [List.filter_cons_of_neg (by simpa using hk), ih, find?_cons, if_neg hne]
    · rw [List.filter_cons_of_pos (by simpa using hk), find?_cons, find?_cons, ih]

theorem keys_erase (d : Dict α) (key : String) :
    (d.erase key).keys = d.keys.filter fun other => other ≠ key := by
  rw [keys, erase, keys, List.filter_map]
  rfl

theorem ordered_erase (h : d.Ordered) (key : String) : (d.erase key).Ordered := by
  rw [Ordered, keys_erase]
  exact List.Pairwise.filter _ h

end Filewise.Dict
