import Filewise.Glob.Filter
import Mathlib.Data.List.DropRight
import Mathlib.Data.List.Perm.Basic

/-!
# The order of the rules of a filter

The last rule that matches decides, so rules that drop have the final word where they stand at the
end. The order of rules matters for exactly those paths that some rule keeps and some other rule
drops. Whether the rule of a line drops is told by its first character.

## Main definitions

* `Glob.LineMatches`: a line describes a rule that matches a path.
* `Glob.IsPlain`: a line that is neither blank nor a comment, and does not exclude.
* `Glob.Filter.IsDisputed`: some rule keeps a path and some rule drops it.

## Main results

* `Glob.Rule.parse?_eq_ok`: which lines describe a rule, and which of these drop.
* `Glob.Filter.drops_append`: rules that drop, after other rules.
* `Glob.Filter.drops_perm`: where the order of rules does not matter.
* `Glob.Filter.drops_of_keeps`: rules that only keep.
-/

namespace Filewise.Glob

/-! ### Lines -/

/-- Trimming a line leaves a beginning of it. -/
theorem trimLine_prefix (line : List Char) : trimLine line <+: line := by
  rw [trimLine]
  split_ifs
  · exact List.prefix_rfl
  · exact List.rdropWhile_prefix Text.isSpace line

/-- Blank lines, and no others, are trimmed to nothing. -/
theorem trimLine_eq_nil_iff {line : List Char} :
    trimLine line = [] ↔ ∀ c ∈ line, Text.isSpace c = true := by
  rw [trimLine]
  split_ifs with hescaped
  · -- there is a backslash before the escaped blank
    obtain ⟨rest, hrest⟩ := List.isPrefixOf_iff_prefix.mp hescaped
    have hmem : '\\' ∈ line := by
      rw [← List.mem_reverse, ← hrest]
      simp
    refine ⟨fun hnil => by simp [hnil] at hmem, fun hblank => ?_⟩
    exact absurd (hblank _ hmem) (by decide +kernel)
  · rw [List.reverse_eq_nil_iff, List.dropWhile_eq_nil_iff]
    simp only [List.mem_reverse]

/-- What is left of a line begins as the line did. -/
theorem head?_trimLine {line : List Char} (h : trimLine line ≠ []) :
    (trimLine line).head? = line.head? := by
  obtain ⟨more, hmore⟩ := trimLine_prefix line
  rw [← hmore, List.head?_append_of_ne_nil _ h, hmore]

/-- A line excludes if there is an exclamation mark at its front. -/
theorem Marks.isExclude_parse (line : List Char) :
    (Marks.parse line).isExclude = (line.head? == some '!') := by
  unfold Marks.parse
  split
  case h_6 hother _ =>
    cases line with
    | nil => rfl
    | cons c rest =>
      have hne : c ≠ '!' := fun hc => hother rest (by rw [hc])
      simp [hne]
  all_goals simp

/-- A line that is neither blank nor a comment, and does not exclude. -/
structure IsPlain (line : String) : Prop where
  not_exclude : line.toList.head? ≠ some '!'
  not_comment : line.toList.head? ≠ some '#'
  not_blank : ∃ c ∈ line.toList, Text.isSpace c = false

variable {line : String} {rule? : Option Rule} {r : Rule}

/-- A line describes no rule if it is blank or a comment. The rule of any other line drops if the
line starts with an exclamation mark. -/
theorem Rule.parse?_eq_ok (h : Rule.parse? line = .ok rule?) :
    (rule? = none ∧
      (line.toList.head? = some '#' ∨ ∀ c ∈ line.toList, Text.isSpace c = true)) ∨
    ∃ r, rule? = some r ∧ r.isExclude = (line.toList.head? == some '!') := by
  unfold Rule.parse? at h
  split at h
  · next hhash =>
    obtain rfl := Except.ok.inj h
    exact Or.inl ⟨rfl, Or.inl (by rw [hhash]; rfl)⟩
  · next chars hchars =>
    dsimp only at h
    split_ifs at h with hempty
    · obtain rfl := Except.ok.inj h
      exact Or.inl ⟨rfl, Or.inr (trimLine_eq_nil_iff.mp (List.isEmpty_iff.mp hempty))⟩
    · split at h
      · next tokens htokens =>
        refine Or.inr ⟨_, (Except.ok.inj h).symm, ?_⟩
        rw [← head?_trimLine (mt List.isEmpty_iff.mpr hempty)]
        exact Marks.isExclude_parse _
      · simp at h

/-- A line after an exclamation mark describes a rule that drops. -/
theorem Rule.exists_of_exclude (h : Rule.parse? ("!" ++ line) = .ok rule?) :
    ∃ r, rule? = some r ∧ r.isExclude = true := by
  have hchars : ("!" ++ line).toList = '!' :: line.toList := by simp
  rcases Rule.parse?_eq_ok h with ⟨-, hhash | hblank⟩ | ⟨r, hr, hexclude⟩
  · simp [hchars] at hhash
  · exact absurd (hblank '!' (by simp [hchars])) (by decide +kernel)
  · exact ⟨r, hr, by rw [hexclude, hchars]; rfl⟩

/-- A plain line describes a rule that keeps. -/
theorem Rule.exists_of_isPlain (hline : IsPlain line) (h : Rule.parse? line = .ok rule?) :
    ∃ r, rule? = some r ∧ r.isExclude = false := by
  rcases Rule.parse?_eq_ok h with ⟨-, hhash | hblank⟩ | ⟨r, hr, hexclude⟩
  · exact absurd hhash hline.not_comment
  · obtain ⟨c, hc, hspace⟩ := hline.not_blank
    simp [hblank c hc] at hspace
  · exact ⟨r, hr, by rw [hexclude]; exact beq_false_of_ne hline.not_exclude⟩

/-- The rule that a line describes, if it does. -/
def ruleOf? (line : String) : Option Rule := (Rule.parse? line).toOption.join

theorem ruleOf?_eq_some_iff : ruleOf? line = some r ↔ Rule.parse? line = .ok (some r) := by
  cases hparse : Rule.parse? line <;> simp [ruleOf?, hparse, Except.toOption]

/-- The rule of a line drops if the line starts with an exclamation mark. -/
theorem isExclude_of_ruleOf? (h : ruleOf? line = some r) :
    r.isExclude = (line.toList.head? == some '!') := by
  rcases Rule.parse?_eq_ok (ruleOf?_eq_some_iff.mp h) with ⟨hnone, -⟩ | ⟨r', hr', hexclude⟩
  · simp at hnone
  · rwa [Option.some.inj hr']

/-- A line describes a rule that matches a path. -/
def LineMatches (line : String) (location : Location) (isDirectory : Bool) : Prop :=
  ∃ r, ruleOf? line = some r ∧ r.matches location isDirectory = true

/-! ### Rules in order -/

namespace Filter

variable {f : Filter} {rules rules' excludes : List Rule} {l : Location} {d : Bool}

/-- Some rule keeps a path, and some rule drops it. -/
def IsDisputed (f : Filter) (location : Location) (isDirectory : Bool) : Prop :=
  (∃ r ∈ f.rules, r.isExclude = false ∧ r.matches location isDirectory = true) ∧
    ∃ r ∈ f.rules, r.isExclude = true ∧ r.matches location isDirectory = true

/-- The rule that decides is a rule that matches. -/
theorem mem_of_decisive? (h : f.decisive? l d = some r) :
    r ∈ f.rules ∧ r.matches l d = true := by
  rw [decisive?] at h
  have hmatches := List.find?_some h
  exact ⟨List.mem_reverse.mp (List.mem_of_find?_eq_some h), hmatches⟩

/-- No rule decides if none matches. -/
theorem decisive?_eq_none_iff :
    f.decisive? l d = none ↔ f.rules.any (fun r => r.matches l d) = false := by
  simp [decisive?, List.find?_eq_none, List.any_eq_false]

/-- The last rule decides on what it matches. -/
theorem drops_concat (h : r.matches l d = true) :
    (⟨rules ++ [r]⟩ : Filter).drops l d = r.isExclude := by
  simp [drops, decisive?, h]

/-- Rules that drop have the final word at the end. -/
theorem drops_append (h : ∀ r ∈ excludes, r.isExclude = true) :
    (⟨rules ++ excludes⟩ : Filter).drops l d =
      (excludes.any (fun r => r.matches l d) || (⟨rules⟩ : Filter).drops l d) := by
  have hkeeps : excludes.any (fun r => !r.isExclude) = false := by
    simpa [List.any_eq_false] using h
  have hdecisive : (⟨rules ++ excludes⟩ : Filter).decisive? l d =
      ((⟨excludes⟩ : Filter).decisive? l d).or ((⟨rules⟩ : Filter).decisive? l d) := by
    rw [decisive?, List.reverse_append, List.find?_append]
    rfl
  rw [drops, hdecisive, List.any_append, hkeeps, Bool.or_false]
  -- the rules before come into play only if none of these matches
  cases hfind : (⟨excludes⟩ : Filter).decisive? l d with
  | none =>
    rw [decisive?_eq_none_iff.mp hfind, Option.none_or, Bool.false_or]
    rfl
  | some r =>
    obtain ⟨hr, hmatches⟩ := mem_of_decisive? hfind
    rw [List.any_eq_true.mpr ⟨r, hr, hmatches⟩, Option.some_or, Bool.true_or]
    exact h r hr

/-- Where rules are not at odds, a path is dropped if some rule drops it, or if it is a file that
no rule matches although some rule keeps files. -/
theorem drops_eq_of_not_isDisputed (h : ¬f.IsDisputed l d) :
    f.drops l d = (f.rules.any (fun r => r.isExclude && r.matches l d) ||
      (!d && f.rules.any (fun r => !r.isExclude) && !f.rules.any fun r => r.matches l d)) := by
  rw [drops]
  cases hfind : f.decisive? l d with
  | none =>
    have hnone := decisive?_eq_none_iff.mp hfind
    have hdrop : f.rules.any (fun r => r.isExclude && r.matches l d) = false := by
      rw [List.any_eq_false] at hnone ⊢
      exact fun r hr hdrops => hnone r hr (Bool.and_eq_true_iff.mp hdrops).2
    rw [hnone, hdrop, Bool.false_or, Bool.not_false, Bool.and_true]
  | some r =>
    obtain ⟨hr, hmatches⟩ := mem_of_decisive? hfind
    have hany : f.rules.any (fun r => r.matches l d) = true :=
      List.any_eq_true.mpr ⟨r, hr, hmatches⟩
    rw [hany, Bool.not_true, Bool.and_false, Bool.or_false]
    -- all rules that match are of the same kind
    cases hexclude : r.isExclude with
    | true => exact hexclude.trans (List.any_eq_true.mpr ⟨r, hr, by simp [hexclude, hmatches]⟩).symm
    | false =>
      refine hexclude.trans (List.any_eq_false.mpr fun r' hr' hdrops => h ?_).symm
      exact ⟨⟨r, hr, hexclude, hmatches⟩, r', hr', Bool.and_eq_true_iff.mp hdrops⟩

/-- Reordering rules leaves alone what is not disputed. -/
theorem drops_perm (hperm : rules'.Perm rules) (h : ¬(⟨rules⟩ : Filter).IsDisputed l d) :
    (⟨rules'⟩ : Filter).drops l d = (⟨rules⟩ : Filter).drops l d := by
  have h' : ¬(⟨rules'⟩ : Filter).IsDisputed l d := by
    simpa only [IsDisputed, hperm.mem_iff] using h
  rw [drops_eq_of_not_isDisputed h, drops_eq_of_not_isDisputed h']
  simp only [hperm.any_eq]

/-- Rules that keep, if there are any, drop the files that none of them matches, and no
directories. -/
theorem drops_of_keeps (h : ∀ r ∈ rules, r.isExclude = false) (hne : rules ≠ []) :
    (⟨rules⟩ : Filter).drops l d = (!d && !rules.any fun r => r.matches l d) := by
  have hundisputed : ¬(⟨rules⟩ : Filter).IsDisputed l d := by
    rintro ⟨-, r, hr, hexclude, -⟩
    simp [h r hr] at hexclude
  have hdrop : rules.any (fun r => r.isExclude && r.matches l d) = false := by
    simp +contextual [List.any_eq_false, h]
  have hkeep : rules.any (fun r => !r.isExclude) = true := by
    obtain ⟨r, hr⟩ := List.exists_mem_of_ne_nil rules hne
    exact List.any_eq_true.mpr ⟨r, hr, by simp [h r hr]⟩
  rw [drops_eq_of_not_isDisputed hundisputed, hdrop, hkeep, Bool.false_or, Bool.and_true]

/-- Without rules nothing is dropped. -/
@[simp] theorem drops_nil : (⟨[]⟩ : Filter).drops l d = false := by
  simp [drops, decisive?]

end Filter

end Filewise.Glob
