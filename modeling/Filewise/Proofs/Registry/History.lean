import Filewise.Engine.Standard
import Filewise.Proofs.Dict
import Mathlib.Data.List.Induction
import Mathlib.Data.List.Nodup
import Mathlib.Tactic.Common

/-!
# Histories of registrations

Transformers are offered to a registry one after the other, and one whose id is taken is refused.
Whatever has been offered, an id stands for the first transformer of that id, and it is refused from
then on. Transformers that have to be taken all together are refused at the first one whose id is
that of an earlier one.

## Main definitions

* `Registry.offer`, `Registry.after`: a registry after one offer, and after a history of offers.
* `Registry.Registers`: one of the offers of a history registered a transformer.

## Main results

* `Registry.find?_after`: an id stands for the first transformer of that id.
* `Registry.registerAll_eq_error_iff`: which of several transformers is the first to be refused.
* `Registry.first_registration_wins`: what a registry knows after any history.
-/

namespace Filewise.Registry

variable {history earlier later ts : List Transformer} {t u : Transformer} {id : String}
  {r r' : Registry} {e : RegistryError}

/-- The registry after a transformer has been offered. One that is refused changes nothing. -/
def offer (r : Registry) (t : Transformer) : Registry :=
  match r.register t with
  | .ok r' => r'
  | .error _ => r

/-- The registry after transformers have been offered, beginning with no transformers. -/
def after (history : List Transformer) : Registry := history.foldl offer empty

/-- One of the offers of a history registered a transformer. -/
def Registers (history : List Transformer) (t : Transformer) : Prop :=
  ∃ earlier later r, history = earlier ++ t :: later ∧ (after earlier).register t = .ok r

/-! ### One offer -/

theorem register_eq_error_iff :
    r.register t = .error e ↔ t.id ∈ r.ids ∧ e = .duplicate t.id := by
  have hids : t.id ∈ r.ids ↔ r.transformers.contains t.id = true := Dict.contains_iff.symm
  rw [register, hids, eq_comm]
  split_ifs with h <;> simp [h]

theorem register_eq_ok_iff :
    r.register t = .ok r' ↔ t.id ∉ r.ids ∧ r' = ⟨r.transformers.insert t.id t⟩ := by
  have hids : t.id ∈ r.ids ↔ r.transformers.contains t.id = true := Dict.contains_iff.symm
  rw [register, hids, eq_comm]
  split_ifs with h <;> simp [h]

theorem offer_of_mem (h : t.id ∈ r.ids) : r.offer t = r := by
  rw [offer, register_eq_error_iff.mpr ⟨h, rfl⟩]

theorem offer_of_not_mem (h : t.id ∉ r.ids) :
    r.offer t = ⟨r.transformers.insert t.id t⟩ := by
  rw [offer, register_eq_ok_iff.mpr ⟨h, rfl⟩]

theorem mem_ids_iff : id ∈ r.ids ↔ ∃ t, r.find? id = some t := Dict.mem_keys_iff

/-- What an id stands for stays, and an offer is taken for an id that stands for nothing. -/
theorem find?_offer (r : Registry) (t : Transformer) (id : String) :
    (r.offer t).find? id = (r.find? id).or (if t.id = id then some t else none) := by
  by_cases h : t.id ∈ r.ids
  · rw [offer_of_mem h]
    split_ifs with hid
    · obtain ⟨u, hu⟩ := mem_ids_iff.mp (hid ▸ h)
      rw [hu, Option.some_or]
    · rw [Option.or_none]
  · rw [offer_of_not_mem h, find?, Dict.find?_insert]
    split_ifs with hid
    · -- the id was free
      have hnone : r.find? id = none := Dict.find?_eq_none_iff.mpr (hid ▸ h)
      rw [hnone, Option.none_or]
    · rw [find?, Option.or_none]

theorem ordered_offer (h : r.transformers.Ordered) : (r.offer t).transformers.Ordered := by
  by_cases hid : t.id ∈ r.ids
  · rwa [offer_of_mem hid]
  · rw [offer_of_not_mem hid]
    exact Dict.ordered_insert h _ _

/-! ### Histories -/

theorem after_concat (history : List Transformer) (t : Transformer) :
    after (history ++ [t]) = (after history).offer t := List.foldl_concat ..

theorem find?_foldl_offer (r : Registry) (history : List Transformer) (id : String) :
    (history.foldl offer r).find? id = (r.find? id).or (history.find? (·.id = id)) := by
  induction history generalizing r with
  | nil => simp
  | cons t history ih =>
    rw [List.foldl_cons, ih, find?_offer, List.find?_cons, Option.or_assoc]
    by_cases h : t.id = id <;> simp [h]

/-- An id stands for the first transformer of that id. -/
theorem find?_after (history : List Transformer) (id : String) :
    (after history).find? id = history.find? (·.id = id) := by
  rw [after, find?_foldl_offer]
  rfl

theorem mem_ids_after : id ∈ (after history).ids ↔ id ∈ history.map Transformer.id := by
  rw [mem_ids_iff, find?_after, ← Option.isSome_iff_exists, List.find?_isSome]
  simp

/-- The ids are in ascending order after any history. -/
theorem ordered_after (history : List Transformer) : (after history).transformers.Ordered := by
  induction history using List.reverseRecOn with
  | nil => exact Dict.ordered_nil
  | append_singleton history t ih =>
    rw [after_concat]
    exact ordered_offer ih

/-- A transformer stands for its own id. -/
theorem id_of_mem_transformers {entry : String × Transformer}
    (h : entry ∈ (after history).transformers) : entry.2.id = entry.1 := by
  have hfound : (after history).find? entry.1 = some entry.2 :=
    (ordered_after history).find?_eq_some_iff.mpr h
  rw [find?_after] at hfound
  simpa using List.find?_some hfound

theorem map_id_descriptors (history : List Transformer) :
    (after history).descriptors.map Transformer.id = (after history).ids := by
  rw [descriptors, ids, Dict.keys, List.map_map]
  exact List.map_congr_left fun entry hentry => id_of_mem_transformers hentry

/-- The transformers that have been registered are the first ones of their ids. -/
theorem registers_iff : Registers history t ↔ history.find? (·.id = t.id) = some t := by
  rw [List.find?_eq_some_iff_append]
  simp only [decide_true, true_and]
  constructor
  · rintro ⟨earlier, later, r, rfl, hregister⟩
    refine ⟨earlier, later, rfl, fun u hu => ?_⟩
    have hfree := (register_eq_ok_iff.mp hregister).1
    rw [mem_ids_after, List.mem_map] at hfree
    simpa using fun hid => hfree ⟨u, hu, hid⟩
  · rintro ⟨earlier, later, rfl, hfirst⟩
    refine ⟨earlier, later, _, rfl, register_eq_ok_iff.mpr ⟨?_, rfl⟩⟩
    rw [mem_ids_after, List.mem_map]
    rintro ⟨u, hu, hid⟩
    simpa [hid] using hfirst u hu

/-- What an id stands for has been registered for it. -/
theorem find?_after_eq_some_iff :
    (after history).find? id = some t ↔ Registers history t ∧ t.id = id := by
  rw [find?_after]
  constructor
  · intro h
    obtain rfl : t.id = id := by simpa using List.find?_some h
    exact ⟨registers_iff.mpr h, rfl⟩
  · rintro ⟨h, rfl⟩
    exact registers_iff.mp h

/-- An id is taken once a transformer has been registered for it. -/
theorem mem_ids_after_iff_registers :
    id ∈ (after history).ids ↔ ∃ t, Registers history t ∧ t.id = id := by
  simp only [mem_ids_iff, find?_after_eq_some_iff]

/-! ### Transformers that are registered together -/

theorem registerAll_cons (r : Registry) (t : Transformer) (ts : List Transformer) :
    r.registerAll (t :: ts) = (r.register t).bind fun r => r.registerAll ts := rfl

/-- The first transformer is refused, and with it all of them. -/
theorem registerAll_cons_of_mem (h : t.id ∈ (after history).ids) :
    (after history).registerAll (t :: ts) = .error (.duplicate t.id) := by
  rw [registerAll_cons, register_eq_error_iff.mpr ⟨h, rfl⟩]
  rfl

/-- The first transformer is registered, and the others follow. -/
theorem registerAll_cons_of_not_mem (h : t.id ∉ (after history).ids) :
    (after history).registerAll (t :: ts) = (after (history ++ [t])).registerAll ts := by
  rw [registerAll_cons, register_eq_ok_iff.mpr ⟨h, rfl⟩, after_concat, offer_of_not_mem h]
  rfl

theorem not_nodup_of_mem (h : t.id ∈ (after history).ids) (ts : List Transformer) :
    ¬((history ++ t :: ts).map Transformer.id).Nodup := by
  rw [List.map_append, List.map_cons, List.nodup_middle, List.nodup_cons, List.mem_append]
  exact fun hnodup => hnodup.1 (Or.inl (mem_ids_after.mp h))

theorem nodup_concat (hnodup : (history.map Transformer.id).Nodup)
    (h : t.id ∉ (after history).ids) : ((history ++ [t]).map Transformer.id).Nodup := by
  rw [List.map_append, List.map_singleton, ← List.concat_eq_append]
  exact hnodup.concat (mt mem_ids_after.mpr h)

/-- Transformers are registered together if all ids are different. -/
theorem registerAll_eq_ok_iff (hnodup : (history.map Transformer.id).Nodup) :
    (after history).registerAll ts = .ok r ↔
      ((history ++ ts).map Transformer.id).Nodup ∧ r = after (history ++ ts) := by
  induction ts generalizing history with
  | nil =>
    rw [List.append_nil, and_iff_right hnodup, eq_comm (a := r)]
    exact ⟨Except.ok.inj, congrArg Except.ok⟩
  | cons t ts ih =>
    by_cases h : t.id ∈ (after history).ids
    · simp only [registerAll_cons_of_mem h, reduceCtorEq, not_nodup_of_mem h ts, false_and]
    · rw [registerAll_cons_of_not_mem h, ih (nodup_concat hnodup h), List.append_assoc,
        List.singleton_append]

/-- Transformers that cannot be registered together are refused at the first one whose id is that
of an earlier one. -/
theorem registerAll_eq_error_iff (hnodup : (history.map Transformer.id).Nodup) :
    (after history).registerAll ts = .error e ↔
      ∃ earlier t later, ts = earlier ++ t :: later ∧
        ((history ++ earlier).map Transformer.id).Nodup ∧
        t.id ∈ (history ++ earlier).map Transformer.id ∧ e = .duplicate t.id := by
  induction ts generalizing history with
  | nil =>
    simp [registerAll, pure, Except.pure]
  | cons t ts ih =>
    by_cases h : t.id ∈ (after history).ids
    · rw [registerAll_cons_of_mem h]
      constructor
      · rintro ⟨⟩
        exact ⟨[], t, ts, rfl, by simpa using hnodup, by simpa using mem_ids_after.mp h, rfl⟩
      · rintro ⟨_ | ⟨u, earlier⟩, t', later, heq, hfree, -, rfl⟩
        · rw [(List.cons.inj heq).1]
        · -- the first one cannot be among those that are different
          rw [← (List.cons.inj heq).1] at hfree
          exact absurd hfree (not_nodup_of_mem h earlier)
    · rw [registerAll_cons_of_not_mem h, ih (nodup_concat hnodup h)]
      constructor
      · rintro ⟨earlier, t', later, rfl, hfree, htaken, rfl⟩
        exact ⟨t :: earlier, t', later, rfl, by simpa using hfree, by simpa using htaken, rfl⟩
      · rintro ⟨_ | ⟨u, earlier⟩, t', later, heq, hfree, htaken, rfl⟩
        · rw [List.append_nil, ← (List.cons.inj heq).1] at htaken
          exact absurd (mem_ids_after.mpr htaken) h
        · obtain ⟨rfl, rfl⟩ := List.cons.inj heq
          exact ⟨earlier, t', later, rfl, by simpa using hfree, by simpa using htaken, rfl⟩

/-- The standard registry is what is left when the standard transformers are offered. -/
theorem standard_eq_after : standard = after Engine.standard := rfl

theorem nodup_standard : (Engine.standard.map Transformer.id).Nodup := by
  decide

/-- An offer is refused if and only if a transformer has been registered for the id. -/
theorem register_after_eq_error_iff : (after history).register t = .error e ↔
    (∃ u, Registers history u ∧ u.id = t.id) ∧ e = .duplicate t.id := by
  rw [register_eq_error_iff, mem_ids_after_iff_registers]

/-- An id stands for the transformer that was registered for it, which is the first one of that
id. -/
theorem resolve_after_eq_ok_iff : (after history).resolve id = .ok t ↔
    ∃ earlier later r, history = earlier ++ t :: later ∧ (∀ u ∈ earlier, u.id ≠ id) ∧
      t.id = id ∧ (after earlier).register t = .ok r := by
  have hresolve : (after history).resolve id = .ok t ↔ (after history).find? id = some t := by
    rw [resolve]
    cases (after history).find? id <;> simp
  rw [hresolve, find?_after_eq_some_iff]
  constructor
  · rintro ⟨⟨earlier, later, r, rfl, hregister⟩, rfl⟩
    have hfree := (register_eq_ok_iff.mp hregister).1
    rw [mem_ids_after, List.mem_map, not_exists] at hfree
    exact ⟨earlier, later, r, rfl, fun u hu hid => hfree u ⟨hu, hid⟩, rfl, hregister⟩
  · rintro ⟨earlier, later, r, rfl, -, rfl, hregister⟩
    exact ⟨⟨earlier, later, r, rfl, hregister⟩, rfl⟩

/-- An id is refused if and only if no transformer has been registered for it. -/
theorem exists_resolve_after_eq_error_iff : (∃ e, (after history).resolve id = .error e) ↔
    ¬∃ t, Registers history t ∧ t.id = id := by
  have hresolve : (∃ e, (after history).resolve id = .error e) ↔
      (after history).find? id = none := by
    rw [resolve]
    cases (after history).find? id <;> simp
  rw [hresolve, ← mem_ids_after_iff_registers]
  exact Dict.find?_eq_none_iff

/-- A registry gives each id to the first transformer that was offered for it. -/
structure ServesFirst (r : Registry) (history : List Transformer) : Prop where
  /-- An offer is refused if and only if a transformer has been registered for the id. -/
  refuses_iff : ∀ t e, r.register t = .error e ↔
    (∃ u, Registers history u ∧ u.id = t.id) ∧ e = .duplicate t.id
  /-- An offer that is refused changes nothing. -/
  keeps : ∀ t e, r.register t = .error e → after (history ++ [t]) = r
  /-- An id stands for the transformer that was registered for it, the first one of that id. -/
  finds_iff : ∀ id t, r.resolve id = .ok t ↔
    ∃ earlier later r', history = earlier ++ t :: later ∧ (∀ u ∈ earlier, u.id ≠ id) ∧
      t.id = id ∧ (after earlier).register t = .ok r'
  /-- An id stands for nothing if and only if no transformer has been registered for it. -/
  fails_iff : ∀ id, (∃ e, r.resolve id = .error e) ↔ ¬∃ t, Registers history t ∧ t.id = id
  ascending : r.ids.Pairwise (· < ·)
  /-- The transformers are listed in the order of their ids. -/
  map_id : r.descriptors.map Transformer.id = r.ids
  mem_ids_iff : ∀ id, id ∈ r.ids ↔ ∃ t, Registers history t ∧ t.id = id

/-- After any history of offers, each id belongs to the first transformer that was offered for it.
Transformers can be added to the standard ones if all ids are different, and otherwise they are
refused at the first id that was there before. -/
theorem first_registration_wins :
    (∀ history, ServesFirst (after history) history) ∧ standard = after Engine.standard ∧
    (∀ plugins r, withPlugins plugins = .ok r ↔
      ((Engine.standard ++ plugins).map Transformer.id).Nodup ∧
        r = after (Engine.standard ++ plugins)) ∧
    (∀ plugins e, withPlugins plugins = .error e ↔
      ∃ earlier t later, plugins = earlier ++ t :: later ∧
        ((Engine.standard ++ earlier).map Transformer.id).Nodup ∧
        t.id ∈ (Engine.standard ++ earlier).map Transformer.id ∧ e = .duplicate t.id) := by
  refine ⟨fun history => ?_, standard_eq_after, fun plugins r => ?_, fun plugins e => ?_⟩
  · exact {
      refuses_iff := fun t e => register_after_eq_error_iff
      keeps := fun t e h => by
        rw [after_concat, offer_of_mem (register_eq_error_iff.mp h).1]
      finds_iff := fun id t => resolve_after_eq_ok_iff
      fails_iff := fun id => exists_resolve_after_eq_error_iff
      ascending := ordered_after history
      map_id := map_id_descriptors history
      mem_ids_iff := fun id => mem_ids_after_iff_registers }
  · rw [withPlugins, standard_eq_after]
    exact registerAll_eq_ok_iff nodup_standard
  · rw [withPlugins, standard_eq_after]
    exact registerAll_eq_error_iff nodup_standard

end Filewise.Registry
