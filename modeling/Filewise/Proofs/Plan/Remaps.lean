import Filewise.Proofs.Plan.OutputPath

/-!
# Extensions replaced along a chain

Each step of a chain looks at the path that the steps before it left, and not at what led there. So
a chain can be cut anywhere: its second part works on the path that the first part leaves, and it is
credited with the extension if it replaces one. A step is credited if and only if it replaces an
extension. Therefore no step after the credited one replaces anything, and without a credited step
the path is that of the source.

## Main results

* `OutputPath.ofSteps_append`: the output path of a chain in two parts.
* `OutputPath.ofSteps_singleton_eq_iff`, `OutputPath.exists_replaces_of_ne`: what one step does.
* `OutputPath.exists_credited`: what the steps behind the credited one do.
* `OutputPath.remaps_fold_and_credit`: all of this for every source and every chain.
-/

namespace Filewise

namespace OutputPath

variable {source p : Path} {s : PlannedStep} {steps : List PlannedStep} {old new id : String}

/-! ### One step -/

theorem ofSteps_singleton_of_eq_none (h : remapped? s.transformer p = none) :
    ofSteps p [s] = ⟨p, none⟩ :=
  afterTransformer_of_eq_none (o := ⟨p, none⟩) h

theorem ofSteps_singleton_of_eq_some (h : remapped? s.transformer p = some (old, new)) :
    ofSteps p [s] = ⟨p.replaceExtension old new, some s.transformer.id⟩ :=
  afterTransformer_of_eq_some (o := ⟨p, none⟩) h

/-- A step leaves a path alone if and only if it has nothing for the extensions of the path. -/
theorem ofSteps_singleton_eq_iff : ofSteps p [s] = ⟨p, none⟩ ↔
    ∀ e ∈ p.extensionCandidates, e ∉ s.transformer.extensionRemap.keys := by
  rw [← remapped?_eq_none_iff]
  refine ⟨fun hsame => ?_, ofSteps_singleton_of_eq_none⟩
  cases hremap : remapped? s.transformer p with
  | none => rfl
  | some remap =>
    -- a step that replaces an extension is credited, whatever the path becomes
    have hset := congrArg setBy hsame
    rw [ofSteps_singleton_of_eq_some hremap] at hset
    simp at hset

/-- Otherwise it replaces the longest one that it has something for, and it is credited. -/
theorem exists_replaces_of_ne (h : ofSteps p [s] ≠ ⟨p, none⟩) :
    ∃ old new, s.transformer.Replaces p old new ∧
      ofSteps p [s] = ⟨p.replaceExtension old new, some s.transformer.id⟩ := by
  cases hremap : remapped? s.transformer p with
  | none => exact absurd (ofSteps_singleton_of_eq_none hremap) h
  | some remap =>
    obtain ⟨old, new⟩ := remap
    exact ⟨old, new, replaces_of_remapped? hremap, ofSteps_singleton_of_eq_some hremap⟩

/-! ### Chains in two parts -/

/-- What a transformer does depends on the path alone. -/
theorem afterTransformer_eq (o : OutputPath) (t : Transformer) :
    o.afterTransformer t = ⟨(afterTransformer ⟨o.path, none⟩ t).path,
      (afterTransformer ⟨o.path, none⟩ t).setBy.or o.setBy⟩ := by
  cases hremap : remapped? t o.path with
  | none =>
    have hnone : remapped? t (OutputPath.mk o.path none).path = none := hremap
    rw [afterTransformer_of_eq_none hremap, afterTransformer_of_eq_none hnone, Option.none_or]
  | some remap =>
    have hsome : remapped? t (OutputPath.mk o.path none).path = some remap := hremap
    rw [afterTransformer_of_eq_some hremap, afterTransformer_of_eq_some hsome, Option.some_or]

/-- The second part of a chain works on the path that the first part leaves. It is credited if it
replaces an extension, and otherwise the first part is if that does. -/
theorem ofSteps_append (source : Path) (xs ys : List PlannedStep) :
    ofSteps source (xs ++ ys) = ⟨(ofSteps (ofSteps source xs).path ys).path,
      (ofSteps (ofSteps source xs).path ys).setBy.or (ofSteps source xs).setBy⟩ := by
  induction ys using List.reverseRecOn with
  | nil =>
    rw [List.append_nil]
    rfl
  | append_singleton ys s ih =>
    rw [← List.append_assoc, ofSteps_concat, ofSteps_concat, ih, afterTransformer_eq,
      afterTransformer_eq (ofSteps _ ys), Option.or_assoc]

/-! ### The credited step -/

/-- Without a credited step, the path is that of the source. -/
theorem path_eq_of_setBy_eq_none (h : (ofSteps source steps).setBy = none) :
    (ofSteps source steps).path = source := by
  induction steps using List.reverseRecOn with
  | nil => rfl
  | append_singleton steps s ih =>
    rw [ofSteps_concat] at h ⊢
    cases hremap : remapped? s.transformer (ofSteps source steps).path with
    | none =>
      rw [afterTransformer_of_eq_none hremap] at h ⊢
      exact ih h
    | some remap =>
      rw [afterTransformer_of_eq_some hremap] at h
      simp at h

/-- The path stays as it is after the last step of the credited transformer. -/
theorem exists_credited (h : (ofSteps source steps).setBy = some id) :
    ∃ before s after, steps = before ++ s :: after ∧ s.transformer.id = id ∧
      (∀ later ∈ after, later.transformer.id ≠ id) ∧
      ∀ n, (ofSteps source (before ++ s :: after.take n)).path = (ofSteps source steps).path := by
  induction steps using List.reverseRecOn with
  | nil => simp [ofSteps] at h
  | append_singleton steps s ih =>
    by_cases hid : s.transformer.id = id
    · -- nothing follows a last step of this transformer, whether or not it replaces anything
      exact ⟨steps, s, [], rfl, hid, by simp, fun n => by rw [List.take_nil]⟩
    · rw [ofSteps_concat] at h ⊢
      cases hremap : remapped? s.transformer (ofSteps source steps).path with
      | some remap =>
        -- a last step that replaces an extension is the credited one
        rw [afterTransformer_of_eq_some hremap] at h
        exact absurd (Option.some_inj.mp h) hid
      | none =>
        -- and one that does not is another step after which the path stays as it is
        rw [afterTransformer_of_eq_none hremap] at h ⊢
        obtain ⟨before, credited, after, hsteps, hcredited, hafter, hpath⟩ := ih h
        refine ⟨before, credited, after ++ [s], by simp [hsteps], hcredited, ?_, fun n => ?_⟩
        · intro later hlater
          rcases List.mem_append.mp hlater with hlater | hlater
          · exact hafter later hlater
          · rwa [List.mem_singleton.mp hlater]
        · by_cases hn : n ≤ after.length
          · rw [List.take_append_of_le_length hn]
            exact hpath n
          · rw [List.take_of_length_le (by simp; omega), ← List.cons_append,
              ← List.append_assoc, ← hsteps, ofSteps_concat, afterTransformer_of_eq_none hremap]

/-- Extensions are replaced along a chain, part by part. One step leaves the path alone and is not
credited if it has nothing for the extensions of the path, and otherwise it replaces the longest one
that it has something for and is credited. If no step is credited the path is that of the source,
and if one is the path stays as it is after the last step of that transformer. -/
theorem remaps_fold_and_credit :
    (∀ source xs ys,
      (ofSteps source (xs ++ ys)).path = (ofSteps (ofSteps source xs).path ys).path ∧
      (ofSteps source (xs ++ ys)).setBy =
        (ofSteps (ofSteps source xs).path ys).setBy.or (ofSteps source xs).setBy) ∧
    (∀ p s,
      (ofSteps p [s] = ⟨p, none⟩ ↔
        ∀ e ∈ p.extensionCandidates, e ∉ s.transformer.extensionRemap.keys) ∧
      (ofSteps p [s] ≠ ⟨p, none⟩ → ∃ old new, s.transformer.Replaces p old new ∧
        ofSteps p [s] = ⟨p.replaceExtension old new, some s.transformer.id⟩)) ∧
    (∀ source steps, (ofSteps source steps).setBy = none →
      (ofSteps source steps).path = source) ∧
    ∀ source steps id, (ofSteps source steps).setBy = some id →
      ∃ before s after, steps = before ++ s :: after ∧ s.transformer.id = id ∧
        (∀ later ∈ after, later.transformer.id ≠ id) ∧
        ∀ n, (ofSteps source (before ++ s :: after.take n)).path =
          (ofSteps source steps).path := by
  refine ⟨fun source xs ys => ?_, fun p s => ?_, fun source steps => ?_, fun source steps id => ?_⟩
  · rw [ofSteps_append]
    exact ⟨rfl, rfl⟩
  · exact ⟨ofSteps_singleton_eq_iff, exists_replaces_of_ne⟩
  · exact path_eq_of_setBy_eq_none
  · exact exists_credited

end OutputPath

end Filewise
