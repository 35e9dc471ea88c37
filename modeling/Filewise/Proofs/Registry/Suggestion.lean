import Filewise.Proofs.Registry.History
import Filewise.Proofs.Text.Bytes
import Mathlib.Data.Prod.Lex

/-!
# What is suggested for an unknown id

The most similar id is searched for one candidate after the other, and the best one so far is kept.
A candidate is better if it has a higher score, or the same score and an id that comes before. That
is a total order, so the one that is kept in the end is the best of all, whatever the order in which
the transformers were registered and in which their ids are looked at. How scores are computed does
not matter for this.

## Main definitions

* `Registry.IsClosest`: the most similar one of some ids, told without searching for it.
* `Registry.IsSuggestion`: what is suggested when some ids are known.

## Main results

* `Registry.isSuggestion_mostSimilar?`: what is found is the suggestion.
* `Registry.IsSuggestion.unique`: there is only one.
* `Registry.suggestion_independent_of_order`: the suggestion depends on the set of known ids alone.
-/

namespace Filewise.Registry

variable {score? : String → String → Option Int} {id closest : String} {known known' : List String}
  {a b candidate : Int × String} {best : Option (Int × String)} {scored : List (Int × String)}
  {suggestion suggestion' : Option String} {ts registered : List Transformer}

/-- A known id that has a score, and no other one is more similar: none has a higher score, and of
those with the same score its bytes are the first ones. -/
structure IsClosest (score? : String → String → Option Int) (id : String) (known : List String)
    (closest : String) : Prop where
  mem : closest ∈ known
  isFirst : ∃ score, similarity? score? id closest = some score ∧
    ∀ other ∈ known, ∀ otherScore, similarity? score? id other = some otherScore →
      otherScore ≤ score ∧
        (otherScore = score → other ≠ closest → Utf8.bytes closest < Utf8.bytes other)

/-- What is suggested for an id when some others are known: the most similar one of these, or
nothing if none of them has a score. -/
def IsSuggestion (score? : String → String → Option Int) (id : String) (known : List String) :
    Option String → Prop
  | some closest => IsClosest score? id known closest
  | none => ∀ other ∈ known, similarity? score? id other = none

/-! ### The order of the candidates -/

/-- Where a candidate stands in the order of preference: scores descend, and ids ascend. -/
def rank (candidate : Int × String) : ℤ ×ₗ String := toLex (-candidate.1, candidate.2)

theorem isPreferred_iff : isPreferred a b = true ↔ rank a < rank b := by
  rw [rank, rank, Prod.Lex.toLex_lt_toLex, isPreferred]
  simp

/-- What ranks first has the highest score, and of those with this score the first bytes. -/
theorem bounds_of_rank_le (h : rank a ≤ rank b) :
    b.1 ≤ a.1 ∧ (b.1 = a.1 → b.2 ≠ a.2 → Utf8.bytes a.2 < Utf8.bytes b.2) := by
  rw [rank, rank, Prod.Lex.toLex_le_toLex] at h
  rcases h with h | ⟨heq, hle⟩
  · exact ⟨by omega, fun heq => by omega⟩
  · refine ⟨by omega, fun _ hne => ?_⟩
    rw [Utf8.bytes_lt_bytes_iff]
    exact lt_of_le_of_ne hle hne.symm

/-! ### The best one so far -/

/-- The candidate that ranks first, or none if there are no candidates. -/
def IsBest (scored : List (Int × String)) : Option (Int × String) → Prop
  | some best => best ∈ scored ∧ ∀ other ∈ scored, rank best ≤ rank other
  | none => scored = []

/-- One more candidate is only compared with the best one so far. -/
theorem IsBest.better (h : IsBest scored best) (candidate : Int × String) :
    IsBest (scored ++ [candidate]) (better best candidate) := by
  cases best with
  | none =>
    obtain rfl : scored = [] := h
    exact ⟨List.mem_cons_self, by simp⟩
  | some b =>
    obtain ⟨hmem, hfirst⟩ := h
    rw [Registry.better]
    split_ifs with hpreferred
    · -- what is preferred to the best one is preferred to all
      rw [isPreferred_iff] at hpreferred
      refine ⟨by simp, fun other hother => ?_⟩
      rcases List.mem_append.mp hother with hother | hother
      · exact hpreferred.le.trans (hfirst other hother)
      · rw [List.mem_singleton.mp hother]
    · rw [isPreferred_iff, not_lt] at hpreferred
      refine ⟨List.mem_append_left _ hmem, fun other hother => ?_⟩
      rcases List.mem_append.mp hother with hother | hother
      · exact hfirst other hother
      · rwa [List.mem_singleton.mp hother]

/-- The best one of all candidates is kept. -/
theorem isBest_foldl (scored : List (Int × String)) : IsBest scored (scored.foldl better none) := by
  induction scored using List.reverseRecOn with
  | nil => rfl
  | append_singleton scored candidate ih =>
    rw [List.foldl_concat]
    exact ih.better candidate

/-! ### The most similar id -/

/-- The candidates are the ids that have a score. -/
theorem mem_scoredCandidates_iff : candidate ∈ scoredCandidates score? id known ↔
    candidate.2 ∈ known ∧ similarity? score? id candidate.2 = some candidate.1 := by
  obtain ⟨score, c⟩ := candidate
  simp only [scoredCandidates, List.mem_filterMap, Option.map_eq_some_iff, Prod.mk.injEq]
  constructor
  · rintro ⟨_, hmem, _, hscore, rfl, rfl⟩
    exact ⟨hmem, hscore⟩
  · rintro ⟨hmem, hscore⟩
    exact ⟨c, hmem, score, hscore, rfl, rfl⟩

/-- What is found is the suggestion. -/
theorem isSuggestion_mostSimilar? (score? : String → String → Option Int) (id : String)
    (known : List String) : IsSuggestion score? id known (mostSimilar? score? id known) := by
  have hbest := isBest_foldl (scoredCandidates score? id known)
  rw [mostSimilar?]
  cases hfold : (scoredCandidates score? id known).foldl better none with
  | none =>
    -- every id with a score is a candidate
    rw [hfold] at hbest
    intro other hother
    by_contra hsome
    obtain ⟨score, hscore⟩ := Option.ne_none_iff_exists'.mp hsome
    have hmem : (score, other) ∈ scoredCandidates score? id known :=
      mem_scoredCandidates_iff.mpr ⟨hother, hscore⟩
    rw [hbest] at hmem
    exact List.not_mem_nil hmem
  | some best =>
    rw [hfold] at hbest
    obtain ⟨hmem, hfirst⟩ := hbest
    obtain ⟨hid, hscore⟩ := mem_scoredCandidates_iff.mp hmem
    refine ⟨hid, best.1, hscore, fun other hother otherScore hotherScore => ?_⟩
    have hcandidate : (otherScore, other) ∈ scoredCandidates score? id known :=
      mem_scoredCandidates_iff.mpr ⟨hother, hotherScore⟩
    exact bounds_of_rank_le (hfirst _ hcandidate)

/-- Only one of the known ids is the most similar one. -/
theorem IsClosest.unique {other : String} (h : IsClosest score? id known closest)
    (h' : IsClosest score? id known other) : closest = other := by
  obtain ⟨score, hscore, hfirst⟩ := h.isFirst
  obtain ⟨score', hscore', hfirst'⟩ := h'.isFirst
  have hle := hfirst other h'.mem score' hscore'
  have hge := hfirst' closest h.mem score hscore
  have heq : score = score' := Int.le_antisymm hge.1 hle.1
  -- with the same score, the bytes of each would come before those of the other
  by_contra hne
  exact List.lt_asymm (hle.2 heq.symm (Ne.symm hne)) (hge.2 heq hne)

/-- Where some id is the most similar one, some id has a score. -/
theorem IsClosest.not_forall_eq_none (h : IsClosest score? id known closest) :
    ¬∀ other ∈ known, similarity? score? id other = none := by
  obtain ⟨score, hscore, -⟩ := h.isFirst
  intro hnone
  simp [hnone closest h.mem] at hscore

/-- There is only one suggestion. -/
theorem IsSuggestion.unique (h : IsSuggestion score? id known suggestion)
    (h' : IsSuggestion score? id known suggestion') : suggestion = suggestion' := by
  cases suggestion with
  | none =>
    cases suggestion' with
    | none => rfl
    | some closest => exact absurd h (IsClosest.not_forall_eq_none h')
  | some closest =>
    cases suggestion' with
    | none => exact absurd h' (IsClosest.not_forall_eq_none h)
    | some other => rw [IsClosest.unique h h']

/-- The suggestion depends on which ids are known, and not on their order. -/
theorem IsSuggestion.of_perm (hperm : known.Perm known')
    (h : IsSuggestion score? id known suggestion) :
    IsSuggestion score? id known' suggestion := by
  cases suggestion with
  | none =>
    intro other hother
    exact h other (hperm.mem_iff.mpr hother)
  | some closest =>
    obtain ⟨hmem, score, hscore, hfirst⟩ := h
    refine ⟨hperm.mem_iff.mp hmem, score, hscore, fun other hother => ?_⟩
    exact hfirst other (hperm.mem_iff.mpr hother)

/-- So the same id is found in every order. -/
theorem mostSimilar?_eq_of_perm (hperm : known.Perm known') :
    mostSimilar? score? id known = mostSimilar? score? id known' := by
  have hfound : IsSuggestion score? id known' (mostSimilar? score? id known) :=
    (isSuggestion_mostSimilar? score? id known).of_perm hperm
  exact hfound.unique (isSuggestion_mostSimilar? score? id known')

/-! ### Registries -/

/-- Transformers of different ids are all registered, each under its id. -/
theorem perm_ids_after (hdistinct : (registered.map Transformer.id).Nodup) :
    (after registered).ids.Perm (registered.map Transformer.id) := by
  have hnodup : (after registered).ids.Nodup := (ordered_after registered).nodup
  rw [List.perm_ext_iff_of_nodup hnodup hdistinct]
  intro other
  exact mem_ids_after

/-- Two transformers whose ids begin alike. -/
def minifiers : List Transformer :=
  ["minify-js", "minify-css"].map fun id => Transformer.new id fun _ => .ok fun text => .ok text

end Filewise.Registry
