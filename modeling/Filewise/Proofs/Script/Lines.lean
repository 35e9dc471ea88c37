import Filewise.Proofs.Script.Grammar
import Mathlib.Data.List.Forall2

/-!
# Lines of scripts

Where comments are removed from a script every line end stays, those inside of comments as well. So
what is left has as many lines as the script, and each of its lines comes from the line of the same
number, of which it has lost some characters.

## Main definitions

* `KeepsLineEnds`: a text and what is left of it when characters other than line ends are deleted.
* `lines`: the texts between line ends.

## Main results

* `KeepsLineEnds.lines`: the lines that are left are parts of the lines that there were.
* `stripComments_keeps_lines`: comments are removed by deleting characters other than line ends.
-/

namespace Filewise.Script

/-- A text and what is left of it when characters are deleted, none of which ends a line. -/
inductive KeepsLineEnds : List Char → List Char → Prop
  | nil : KeepsLineEnds [] []
  | keep {text left} (c : Char) : KeepsLineEnds text left → KeepsLineEnds (c :: text) (c :: left)
  | delete {c text left} : c ≠ '\n' → KeepsLineEnds text left → KeepsLineEnds (c :: text) left

/-- The texts between the line ends of a text. -/
def lines (text : List Char) : List (List Char) := text.splitOn '\n'

variable {text left text' left' : List Char} {segment : Segment} {found : List Segment}

/-! ### Deleted characters -/

namespace KeepsLineEnds

/-- Nothing has to be deleted. -/
theorem refl (text : List Char) : KeepsLineEnds text text := by
  induction text with
  | nil => exact .nil
  | cons c text ih => exact .keep c ih

theorem append (h : KeepsLineEnds text left) (h' : KeepsLineEnds text' left') :
    KeepsLineEnds (text ++ text') (left ++ left') := by
  induction h with
  | nil => exact h'
  | keep c _ ih => exact .keep c ih
  | delete hc _ ih => exact .delete hc ih

/-- Everything but the line ends may be deleted. -/
theorem filter_newline (text : List Char) : KeepsLineEnds text (text.filter (· == '\n')) := by
  induction text with
  | nil => exact .nil
  | cons c text ih =>
    by_cases hc : c = '\n'
    · rw [List.filter_cons_of_pos (by simpa using hc)]
      exact .keep c ih
    · rw [List.filter_cons_of_neg (by simpa using hc)]
      exact .delete hc ih

end KeepsLineEnds

/-! ### Lines -/

theorem lines_newline (text : List Char) : lines ('\n' :: text) = [] :: lines text := by
  rw [lines, List.splitOn_cons_eq_if_modifyHead, if_pos (beq_self_eq_true '\n')]
  rfl

/-- A character that ends no line belongs to the first one. -/
theorem exists_lines_cons {c : Char} (hc : c ≠ '\n') (text : List Char) :
    ∃ first rest, lines text = first :: rest ∧ lines (c :: text) = (c :: first) :: rest := by
  obtain ⟨first, rest, hlines⟩ := List.exists_cons_of_ne_nil (List.splitOn_ne_nil '\n' text)
  refine ⟨first, rest, hlines, ?_⟩
  rw [lines, List.splitOn_cons_eq_if_modifyHead, if_neg (by simpa using hc), hlines]
  rfl

/-- As many lines are left as there were, each of them a part of the line it comes from. -/
theorem KeepsLineEnds.lines (h : KeepsLineEnds text left) :
    List.Forall₂ List.Sublist (lines left) (lines text) := by
  induction h with
  | nil => exact .cons (.refl _) .nil
  | @keep text left c _ ih =>
    by_cases hc : c = '\n'
    · rw [hc, lines_newline, lines_newline]
      exact .cons (.refl _) ih
    · obtain ⟨first, rest, hlines, hcons⟩ := exists_lines_cons hc text
      obtain ⟨first', rest', hlines', hcons'⟩ := exists_lines_cons hc left
      rw [hlines, hlines'] at ih
      obtain ⟨hfirst, hrest⟩ := List.forall₂_cons.mp ih
      rw [hcons, hcons']
      exact .cons (hfirst.cons_cons c) hrest
  | @delete c text left hc _ ih =>
    -- the first line loses a character that was no line end
    obtain ⟨first, rest, hlines, hcons⟩ := exists_lines_cons hc text
    rw [hlines] at ih
    obtain ⟨first', rest', hfirst, hrest, hlines'⟩ := List.forall₂_cons_right_iff.mp ih
    rw [hlines', hcons]
    exact .cons (hfirst.cons c) hrest

/-! ### What is left of scripts -/

/-- What is left of a segment has all of its line ends. -/
theorem IsSegmentAt.keepsLineEnds {last : LastToken} (h : IsSegmentAt last segment text)
    (keepLicenses : Bool) : KeepsLineEnds segment.chars (segment.render keepLicenses) := by
  cases h with
  | string | regex | code => exact .refl _
  | @lineComment body _ hbody =>
    -- a line comment stops in front of its line end, so it may be deleted as a whole
    have hnone : ('/' :: '/' :: body).filter (· == '\n') = [] := by
      refine List.filter_eq_nil_iff.mpr fun c hc => ?_
      rw [beq_iff_eq]
      rintro rfl
      exact hbody (by simpa using hc)
    have hleft := KeepsLineEnds.filter_newline ('/' :: '/' :: body)
    rwa [hnone] at hleft
  | blockComment =>
    rw [Segment.render]
    split
    · exact .refl _
    · exact .filter_newline _

/-- What is left of segments has all of their line ends. -/
theorem Reads.keepsLineEnds {context : Context} (h : Reads context found) (keepLicenses : Bool) :
    KeepsLineEnds (textOf found) (found.flatMap (Segment.render keepLicenses)) := by
  induction found generalizing context with
  | nil => exact .nil
  | cons segment rest ih => exact (h.1.keepsLineEnds keepLicenses).append (ih h.2)

/-- Comments are removed from a script by deleting characters, none of which ends a line. So what is
left has as many lines as the script, and each of them is a part of the line of the same number. -/
theorem stripComments_keeps_lines {keepLicenses : Bool} {script output : String}
    (h : stripComments keepLicenses script = .ok output) :
    KeepsLineEnds script.toList output.toList ∧
      (lines output.toList).length = (lines script.toList).length ∧
      ∀ i (hleft : i < (lines output.toList).length) (hi : i < (lines script.toList).length),
        (lines output.toList)[i].Sublist (lines script.toList)[i] := by
  cases hfound : segments script.toList with
  | error opening => simp [stripComments_eq, hfound, Except.map] at h
  | ok found =>
    obtain ⟨hreads, htext⟩ := segmentsFrom_eq_ok_iff.mp hfound
    have houtput : output.toList = found.flatMap (Segment.render keepLicenses) := by
      rw [stripComments_eq, hfound] at h
      rw [← Except.ok.inj h, String.toList_ofList]
    have hkeeps : KeepsLineEnds script.toList output.toList := by
      rw [houtput, ← htext]
      exact hreads.keepsLineEnds keepLicenses
    exact ⟨hkeeps, List.forall₂_iff_get.mp hkeeps.lines⟩

/-- A script with line ends in a template, behind a line comment, escaped in a regular expression
and in a block comment. -/
def fiveLines : String := "`\n` // a\n/\\\n/ /* b\n\r */ c"

theorem fiveLines_keep_lines :
    stripComments false fiveLines = .ok "`\n` \n/\\\n/ \n c" ∧
      KeepsLineEnds fiveLines.toList "`\n` \n/\\\n/ \n c".toList ∧
      (lines "`\n` \n/\\\n/ \n c".toList).length = 5 := by
  have h : stripComments false fiveLines = .ok "`\n` \n/\\\n/ \n c" := by decide +kernel
  have hlines : (lines fiveLines.toList).length = 5 := by decide +kernel
  obtain ⟨hkeeps, hlength, -⟩ := stripComments_keeps_lines h
  exact ⟨h, hkeeps, hlength.trans hlines⟩

end Filewise.Script
