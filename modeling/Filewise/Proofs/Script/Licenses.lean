import Filewise.Proofs.Script.Grammar
import Mathlib.Algebra.Order.BigOperators.Group.List
import Mathlib.Algebra.Order.Group.Nat

/-!
# Licenses in scripts

Whether licenses stay makes no difference to how a script is read. It is refused for the same reason
either way, and what is left of it is made of the same parts. Only where there is a license, it
either stays or leaves its line ends behind.

## Main definitions

* `licenses`: the licenses in a script that is cut into segments.
* `Part`: a part of what is left of a script, with `Part.kept` and `Part.dropped`.

## Main results

* `Scanner.Alike.run_eq_error_iff`: with and without licenses the same scripts are refused.
* `IsSegmentAt.render_eq`: what is left of a segment that is no license does not depend on whether
  licenses stay.
* `stripComments_differs_in_licenses`: only what is left of licenses does.
-/

namespace Filewise.Script

/-- The characters of a block comment that states a license: it opens with an exclamation mark. -/
def Segment.license? : Segment → Option (List Char)
  | .blockComment ('/' :: '*' :: '!' :: body) => some ('/' :: '*' :: '!' :: body)
  | _ => none

/-- The licenses in a script that is cut into segments. -/
def licenses (found : List Segment) : List (List Char) := found.filterMap Segment.license?

/-- The line ends of a text. -/
def newlines (chars : List Char) : List Char := chars.filter (· == '\n')

/-- A part of what is left of a script. -/
inductive Part where
  | other (chars : List Char)
  | license (chars : List Char)

namespace Part

/-- The license that a part is. -/
def license? : Part → Option (List Char)
  | .other _ => none
  | .license chars => some chars

/-- What a part comes to where licenses stay. -/
def kept : Part → List Char
  | .other chars | .license chars => chars

/-- What a part comes to where licenses do not stay. -/
def dropped : Part → List Char
  | .other chars => chars
  | .license chars => newlines chars

/-- The part that a segment leaves. -/
def ofSegment (segment : Segment) : Part :=
  match segment.license? with
  | some chars => .license chars
  | none => .other (segment.render true)

end Part

variable {text chars : List Char} {found : List Segment} {segment : Segment} {part : Part}
  {parts : List Part} {last : LastToken}

/-! ### What is left of a segment -/

theorem eq_of_license? (h : segment.license? = some chars) :
    segment = .blockComment chars ∧ ∃ body, chars = '/' :: '*' :: '!' :: body := by
  unfold Segment.license? at h
  split at h
  · rename_i body
    obtain rfl := Option.some.inj h
    exact ⟨rfl, body, rfl⟩
  · simp at h

/-- A license stays as it is or leaves its line ends. -/
theorem render_of_license? (h : segment.license? = some chars) (keepLicenses : Bool) :
    segment.render keepLicenses = if keepLicenses then chars else newlines chars := by
  obtain ⟨rfl, body, rfl⟩ := eq_of_license? h
  cases keepLicenses <;> rfl

/-- What is left of a segment that is no license does not depend on whether licenses stay. -/
theorem IsSegmentAt.render_eq (h : IsSegmentAt last segment text) (hnone : segment.license? = none)
    (keepLicenses : Bool) : segment.render keepLicenses = segment.render true := by
  cases h with
  | string | lineComment | regex | code => rfl
  | @blockComment tail =>
    have hlicense : isLicense ('/' :: '*' :: tail) = false := by
      cases tail with
      | nil => rfl
      | cons c body =>
        have hc : c ≠ '!' := by
          rintro rfl
          simp [Segment.license?] at hnone
        simpa [isLicense] using hc
    simp only [Segment.render, hlicense, Bool.and_false]

theorem Part.license?_ofSegment (segment : Segment) :
    (Part.ofSegment segment).license? = segment.license? := by
  rw [Part.ofSegment]
  cases segment.license? <;> rfl

theorem Part.kept_ofSegment (segment : Segment) :
    (Part.ofSegment segment).kept = segment.render true := by
  rw [Part.ofSegment]
  cases h : segment.license? with
  | none => rfl
  | some chars => exact (render_of_license? h true).symm

theorem IsSegmentAt.dropped_ofSegment (h : IsSegmentAt last segment text) :
    (Part.ofSegment segment).dropped = segment.render false := by
  rw [Part.ofSegment]
  cases hlicense : segment.license? with
  | none => exact (h.render_eq hlicense false).symm
  | some chars => exact (render_of_license? hlicense false).symm

/-! ### The parts of what is left -/

/-- Without a license it makes no difference whether licenses stay. -/
theorem dropped_eq_kept (h : parts.filterMap Part.license? = []) :
    parts.flatMap Part.dropped = parts.flatMap Part.kept := by
  refine List.flatMap_congr fun part hpart => ?_
  cases part with
  | other chars => rfl
  | license chars => exact nomatch (List.filterMap_eq_nil_iff.mp h) _ hpart

theorem Part.length_dropped_le (part : Part) : part.dropped.length ≤ part.kept.length := by
  cases part with
  | other => exact Nat.le_refl _
  | license chars => exact List.length_filter_le _ chars

/-- A license that does not stay leaves fewer characters, as none of its slashes stays. -/
theorem Part.length_dropped_lt (h : part.license? = some chars) (hslash : '/' ∈ chars) :
    part.dropped.length < part.kept.length := by
  cases part with
  | other => simp [Part.license?] at h
  | license chars' =>
    obtain rfl : chars' = chars := Option.some.inj h
    exact List.length_filter_lt_length_iff_exists.mpr ⟨'/', hslash, by decide⟩

/-- Parts come to the same whether licenses stay or not only if there is no license. -/
theorem dropped_eq_kept_iff (hslash : ∀ chars ∈ parts.filterMap Part.license?, '/' ∈ chars) :
    parts.flatMap Part.dropped = parts.flatMap Part.kept ↔
      parts.filterMap Part.license? = [] := by
  refine ⟨fun heq => List.filterMap_eq_nil_iff.mpr fun part hpart => ?_, dropped_eq_kept⟩
  cases hlicense : part.license? with
  | none => rfl
  | some chars =>
    -- a license would make a difference to the number of characters
    have hlt : (parts.flatMap Part.dropped).length < (parts.flatMap Part.kept).length := by
      rw [List.length_flatMap, List.length_flatMap]
      exact List.sum_lt_sum _ _ (fun part _ => part.length_dropped_le)
        ⟨part, hpart, Part.length_dropped_lt hlicense
          (hslash chars (List.mem_filterMap.mpr ⟨part, hpart, hlicense⟩))⟩
    rw [heq] at hlt
    exact absurd hlt (Nat.lt_irrefl _)

/-- The parts of what is left of a script that is cut into segments. -/
def partsOf (found : List Segment) : List Part := found.map Part.ofSegment

theorem license?_partsOf (found : List Segment) :
    (partsOf found).filterMap Part.license? = licenses found := by
  rw [partsOf, List.filterMap_map, licenses]
  exact List.filterMap_congr fun segment _ => Part.license?_ofSegment segment

theorem kept_partsOf (found : List Segment) :
    (partsOf found).flatMap Part.kept = found.flatMap (Segment.render true) := by
  rw [partsOf, List.flatMap_map]
  exact List.flatMap_congr fun segment _ => Part.kept_ofSegment segment

theorem IsSegmentation.dropped_partsOf (h : IsSegmentation found text) :
    (partsOf found).flatMap Part.dropped = found.flatMap (Segment.render false) := by
  rw [partsOf, List.flatMap_map]
  refine List.flatMap_congr fun segment hsegment => ?_
  obtain ⟨before, after, hfound⟩ := List.append_of_mem hsegment
  exact (h.isAt before segment after hfound).dropped_ofSegment

theorem slash_mem_of_mem_licenses (h : chars ∈ licenses found) : '/' ∈ chars := by
  obtain ⟨segment, -, hsegment⟩ := List.mem_filterMap.mp h
  obtain ⟨-, body, rfl⟩ := eq_of_license? hsegment
  exact List.mem_cons_self

/-! ### Reading with and without licenses -/

namespace Scanner

variable {s s' : Scanner} {keep keep' : Bool}

/-- Two scanners are at the same place of a script, whatever is left of what they read. -/
structure Alike (s s' : Scanner) : Prop where
  line : s.line = s'.line
  context : s.context = s'.context

/-- Scanners at the same place read the same segment, if it is closed, and are at the same place
again. -/
theorem Alike.step (h : s.Alike s') (keep keep' : Bool) (c : Char) (rest : List Char) :
    (∃ u, s.step keep c rest = .error u ∧ s'.step keep' c rest = .error u) ∨
    ∃ t t' rest', s.step keep c rest = .ok (t, rest') ∧ s'.step keep' c rest = .ok (t', rest') ∧
      t.Alike t' := by
  rw [step_eq, step_eq, ← h.line, ← h.context]
  cases next? s.context c rest with
  | error opening => exact Or.inl ⟨_, rfl, rfl⟩
  | ok found =>
    refine Or.inr ⟨_, _, _, rfl, rfl, ?_, ?_⟩
    · simp only [Scanner.after, h.line]
    · simp only [Scanner.after, h.context]

/-- Scanners at the same place refuse the same scripts for the same reason. -/
theorem Alike.run_eq_error_iff {u : Unterminated} (h : s.Alike s') :
    s.run keep text = .error u ↔ s'.run keep' text = .error u := by
  fun_induction Scanner.run keep s text generalizing s' with
  | case1 s => simp [run]
  | case2 s c rest opening hstep =>
    obtain ⟨_, hrefused, hrefused'⟩ | ⟨_, _, _, hread, -⟩ := h.step keep keep' c rest
    · obtain rfl := Except.error.inj (hstep.symm.trans hrefused)
      rw [run_of_error hrefused']
    · simp [hstep] at hread
  | case3 s c rest t after hstep ih =>
    obtain ⟨_, hrefused, -⟩ | ⟨_, t', _, hread, hread', halike⟩ := h.step keep keep' c rest
    · simp [hstep] at hrefused
    · obtain ⟨rfl, rfl⟩ := Prod.mk.inj (Except.ok.inj (hstep.symm.trans hread))
      rw [run_of_ok hread', ih halike]

end Scanner

/-! ### What is left of scripts -/

/-- Whether licenses stay decides nothing but what becomes of the licenses of a script. The script
is refused for the same opening in the same line either way, or else it is cut into segments in the
same way. What is left of it is then made of the same parts, among which the licenses are those of
the segments: all of a license is left where licenses stay, and its line ends otherwise. So the two
differ exactly if there is a license. -/
theorem stripComments_differs_in_licenses (script : String) :
    (∃ u, stripComments true script = .error u ∧ stripComments false script = .error u) ∨
    ∃ (found : List Segment) (parts : List Part), IsSegmentation found script.toList ∧
      parts.filterMap Part.license? = licenses found ∧
      stripComments true script = .ok (String.ofList (parts.flatMap Part.kept)) ∧
      stripComments false script = .ok (String.ofList (parts.flatMap Part.dropped)) ∧
      (stripComments true script = stripComments false script ↔ licenses found = []) := by
  cases hfound : segments script.toList with
  | error u =>
    have hrefused : stripComments true script = .error u := by
      rw [stripComments_eq, hfound]
      rfl
    have halike : Scanner.start.Alike Scanner.start := ⟨rfl, rfl⟩
    exact Or.inl ⟨u, hrefused, halike.run_eq_error_iff.mp hrefused⟩
  | ok found =>
    -- the cut does not depend on what is written, so both results come from the same segments
    have hsegmentation := segments_eq_ok_iff.mp hfound
    have hlicenses := license?_partsOf found
    have hkept : stripComments true script =
        .ok (String.ofList ((partsOf found).flatMap Part.kept)) := by
      rw [stripComments_eq, hfound, kept_partsOf]
      rfl
    have hdropped : stripComments false script =
        .ok (String.ofList ((partsOf found).flatMap Part.dropped)) := by
      rw [stripComments_eq, hfound, hsegmentation.dropped_partsOf]
      rfl
    have hslash : ∀ chars ∈ (partsOf found).filterMap Part.license?, '/' ∈ chars := by
      rw [hlicenses]
      exact fun chars => slash_mem_of_mem_licenses
    refine Or.inr ⟨found, partsOf found, hsegmentation, hlicenses, hkept, hdropped, ?_⟩
    rw [hkept, hdropped, Except.ok.injEq, String.ofList_inj, eq_comm,
      dropped_eq_kept_iff hslash, hlicenses]

example : stripComments true "/*! a\n */b/* c */" = .ok "/*! a\n */b" := by decide +kernel
example : stripComments false "/*! a\n */b/* c */" = .ok "\nb" := by decide +kernel

end Filewise.Script
