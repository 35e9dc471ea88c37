import Mathlib.Data.List.TakeWhile
import Mathlib.Tactic.Common

/-!
# Runs of characters

Readers of names, numbers and comments take characters of a class as far as they go. Where a run of
such characters is followed by another character or by nothing, this tells the run from the rest.

## Main results

* `takeWhile_dropWhile_append`: a run is taken, and what follows it is left.
* `eq_of_append_runs`: a text begins with one run only.
-/

namespace Filewise.Text

variable {p : Char → Bool} {run run' rest rest' text : List Char} {c : Char}

/-- A run is taken as far as it goes, and what follows it is left. -/
theorem takeWhile_dropWhile_append (hrun : ∀ c ∈ run, p c = true)
    (hrest : ∀ c, rest.head? = some c → p c = false) :
    (run ++ rest).takeWhile p = run ∧ (run ++ rest).dropWhile p = rest := by
  have hstop : rest.takeWhile p = [] ∧ rest.dropWhile p = rest := by
    cases rest with
    | nil => exact ⟨rfl, rfl⟩
    | cons c rest =>
      have hc := hrest c rfl
      simp [hc]
  rw [List.takeWhile_append_of_pos hrun, List.dropWhile_append_of_pos hrun, hstop.1, hstop.2,
    List.append_nil]
  exact ⟨rfl, rfl⟩

/-- What is left behind a run does not go on with it. -/
theorem head?_dropWhile_eq_false (h : (text.dropWhile p).head? = some c) : p c = false := by
  have hne : text.dropWhile p ≠ [] := by
    intro hnil
    simp [hnil] at h
  have hhead := List.head_dropWhile_not p hne
  rw [List.head?_eq_some_head hne] at h
  rwa [Option.some_inj.mp h] at hhead

/-- A text is a run and what follows it in one way only. -/
theorem eq_of_append_runs (hrun : ∀ c ∈ run, p c = true) (hrun' : ∀ c ∈ run', p c = true)
    (hrest : ∀ c, rest.head? = some c → p c = false)
    (hrest' : ∀ c, rest'.head? = some c → p c = false) (h : run ++ rest = run' ++ rest') :
    run = run' ∧ rest = rest' := by
  obtain ⟨htake, hdrop⟩ := takeWhile_dropWhile_append hrun hrest
  obtain ⟨htake', hdrop'⟩ := takeWhile_dropWhile_append hrun' hrest'
  rw [h] at htake hdrop
  exact ⟨htake.symm.trans htake', hdrop.symm.trans hdrop'⟩

end Filewise.Text
