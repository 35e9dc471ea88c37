import Filewise.Proofs.Path.Extension
import Filewise.Proofs.Path.Order

/-!
# Extensions that are put back

A path that has an extension ends in a name of three parts: a text that is not empty, a dot and the
extension. Another extension takes the place of the last part and leaves the other two, so what
stands above the name stays, the new extension is one of the path, and putting the old one back in
its place gives the path again. However many dots the parts begin or end with, they keep the name
from being a lone dot or a double one.

## Main results

* `Path.hasExtension_iff_components`: the extensions of a path, told by its components.
* `Path.components_replaceExtension`: the components of a path with another extension.
* `Path.replaceExtension_undone`: an extension that is replaced can be put back.
-/

namespace Filewise.Path

variable {p : Path} {above : List Component} {base old new name : String}

/-! ### Names with an extension -/

theorem components_of_isName (h : IsName name) : (Path.mk name).components = [.name name] := by
  have hnames : ofNames [name] = ⟨name⟩ := by simp [ofNames]
  rw [← hnames]
  apply components_ofNames
  simpa using h

/-- An extension makes a name with a dot and what stands before it. -/
theorem isName_extension (hbase : base ≠ "") (hnew : new ≠ "")
    (hslash : '/' ∉ (base ++ "." ++ new).toList) : IsName (base ++ "." ++ new) := by
  have hlength : ∀ text : String, text ≠ "" → 0 < text.length := by
    intro text hne
    rw [← String.length_toList]
    exact List.length_pos_of_ne_nil (by simpa using hne)
  have hbefore := hlength base hbase
  have hbehind := hlength new hnew
  -- three characters are more than a double dot has
  have hother : ∀ other : String, other.length ≤ 2 → base ++ "." ++ new ≠ other := by
    rintro _ hle rfl
    rw [String.length_append, String.length_append, show ".".length = 1 from rfl] at hle
    omega
  exact ⟨hother "" (by decide), hother "." (by decide), hother ".." (by decide), hslash⟩

/-- A path has an extension if its last component is a name that ends in it. -/
theorem hasExtension_iff_components : p.HasExtension old ↔ old ≠ "" ∧
    ∃ above base, base ≠ "" ∧ p.components = above ++ [.name (base ++ "." ++ old)] := by
  refine and_congr_right fun _ => ⟨?_, ?_⟩
  · rintro ⟨name, before, hname, hne, hbefore⟩
    obtain ⟨above, habove⟩ := components_of_fileName? hname
    have hwhole : name = String.ofList before ++ "." ++ old := by
      rw [← String.toList_inj, hbefore]
      simp
    exact ⟨above, String.ofList before, by simpa using hne, hwhole ▸ habove⟩
  · rintro ⟨above, base, hne, hcomponents⟩
    exact ⟨base ++ "." ++ old, base.toList, fileName?_of_components hcomponents,
      by simpa using hne, by simp⟩

/-! ### Replacing an extension -/

/-- Only what follows the dot is replaced. -/
theorem components_replaceExtension (h : p.components = above ++ [.name (base ++ "." ++ old)])
    (hbase : base ≠ "") (hnew : new ≠ "") (hslash : '/' ∉ new.toList) :
    (p.replaceExtension old new).components = above ++ [.name (base ++ "." ++ new)] := by
  have hname := fileName?_of_components h
  have hreplaced : p.replaceExtension old new = p.withFileName (base ++ "." ++ new) := by
    have hbefore : baseName? (base ++ "." ++ old) old = some (String.ofList base.toList) :=
      baseName?_eq (by simp)
    rw [replaceExtension, hname, Option.bind_some, hbefore]
    simp [hnew]
  have hisName : IsName (base ++ "." ++ new) := by
    have hwhole := slash_notMem_of_fileName? hname
    apply isName_extension hbase hnew
    simp only [String.toList_append, List.mem_append, not_or] at hwhole ⊢
    exact ⟨hwhole.1, hslash⟩
  have hcomponents := components_of_isName hisName
  have hrelative : isAbsolute ⟨base ++ "." ++ new⟩ = false := by
    rw [← Bool.not_eq_true, isAbsolute_iff, hcomponents]
    simp
  -- with nothing above it, the name is replaced as a whole path
  rw [hreplaced, components_withFileName h hrelative, hcomponents]
  split_ifs with habove
  · rw [habove, List.nil_append]
  · simp

/-- An extension of a path is replaced by any text without slashes that is not empty. The path above
stays the same, the text is an extension of the new path, and if it is replaced by the old extension
the new path becomes the old one. -/
theorem replaceExtension_undone (hold : old ∈ p.extensionCandidates) (hnew : new ≠ "")
    (hslash : '/' ∉ new.toList) :
    (∃ parent parent', p.parent? = some parent ∧
      (p.replaceExtension old new).parent? = some parent' ∧ parent'.same parent = true) ∧
    new ∈ (p.replaceExtension old new).extensionCandidates ∧
    ((p.replaceExtension old new).replaceExtension new old).same p = true := by
  have hextension : p.HasExtension old := mem_extensionCandidates_iff.mp hold
  obtain ⟨hne, above, base, hbase, hcomponents⟩ := hasExtension_iff_components.mp hextension
  have hreplaced := components_replaceExtension hcomponents hbase hnew hslash
  refine ⟨?_, ?_, ?_⟩
  · obtain ⟨parent, hparent, habove, -⟩ := exists_parent? hcomponents
    obtain ⟨parent', hparent', habove', -⟩ := exists_parent? hreplaced
    exact ⟨parent, parent', hparent, hparent', same_iff.mpr (habove'.trans habove.symm)⟩
  · rw [mem_extensionCandidates_iff]
    exact hasExtension_iff_components.mpr ⟨hnew, above, base, hbase, hreplaced⟩
  · -- the way back is a replacement like the way there
    rw [same_iff, hcomponents]
    exact components_replaceExtension hreplaced hbase hne hextension.slash_notMem

/-- Between dots only, and in a path with more slashes and dots than it needs. -/
theorem dots_undone :
    "c.ts" ∈ (Path.mk "a//b/..c.ts/.").extensionCandidates ∧ ".." ≠ "" ∧ '/' ∉ "..".toList ∧
    (Path.mk "a//b/..c.ts/.").replaceExtension "c.ts" ".." = ⟨"a//b/...."⟩ ∧
    (∃ parent parent', (Path.mk "a//b/..c.ts/.").parent? = some parent ∧
      (Path.mk "a//b/....").parent? = some parent' ∧ parent'.same parent = true) ∧
    ".." ∈ (Path.mk "a//b/....").extensionCandidates ∧
    ((Path.mk "a//b/....").replaceExtension ".." "c.ts").same ⟨"a//b/..c.ts/."⟩ = true := by
  have hold : "c.ts" ∈ (Path.mk "a//b/..c.ts/.").extensionCandidates := by decide +kernel
  have hreplaced : (Path.mk "a//b/..c.ts/.").replaceExtension "c.ts" ".." = ⟨"a//b/...."⟩ := by
    decide +kernel
  have hnew : ".." ≠ "" := by decide
  have hundone := replaceExtension_undone hold hnew (by decide)
  rw [hreplaced] at hundone
  exact ⟨hold, hnew, by decide, hreplaced, hundone⟩

end Filewise.Path
