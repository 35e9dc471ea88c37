import Filewise.Plan.OutputPath
import Filewise.Proofs.Dict
import Filewise.Proofs.Path.Extension

/-!
# Output paths stay relative

However often the extensions of a file are replaced, and by whatever texts, the path
stays relative and leads somewhere. A dot stands at its start only if it is the whole
path. Therefore two output paths that differ also differ when they are seen from an
output root.

## Main definitions

* `Path.IsOutput`: what is kept of a path when its extensions are replaced.
* `Transformer.Replaces`: the longest extension of a path that a transformer has something for.

## Main results

* `OutputPath.replaces_of_remapped?`: the longest such extension is the one that is replaced.
* `OutputPath.isOutput_ofSteps`: output paths have this form.
* `Path.IsOutput.same_of_join_same`: an output root keeps output paths apart.
-/

namespace Filewise

namespace Path

variable {p q base : Path}

/-- A relative path that leads somewhere. A dot stands at its start only if it is the
whole path. -/
structure IsOutput (p : Path) : Prop where
  relative : p.isAbsolute = false
  nonempty : p.components ≠ []
  here : p.components.head? = some .here → p.components = [.here]

/-- A dot can only be the first component. -/
theorem here_notMem_tail {c : Component} {rest : List Component} (h : p.components = c :: rest) :
    Component.here ∉ rest := by
  obtain ⟨first, segments, hsegments⟩ := p.exists_segments_eq
  rw [components_of_segments hsegments] at h
  have hinner : Component.here ∉ segments.filterMap innerComponent? := by
    rw [← filter_filterMap_innerComponent?]
    simp
  cases hlead : leadingComponent? first p.isAbsolute with
  | none =>
    rw [hlead, Option.toList_none, List.nil_append] at h
    intro hmem
    exact hinner (h ▸ List.mem_cons_of_mem _ hmem)
  | some d =>
    rw [hlead, Option.toList_some, List.singleton_append] at h
    exact (List.cons.inj h).2 ▸ hinner

/-- Apart from a lone dot, nothing is lost of an output path that is seen from a root. -/
theorem IsOutput.filter_here (h : p.IsOutput) :
    p.components.filter (· ≠ .here) = if p.components = [.here] then [] else p.components := by
  obtain ⟨c, rest, hcomponents⟩ := List.exists_cons_of_ne_nil h.nonempty
  split_ifs with hlone
  · rw [hlone]
    rfl
  · apply List.filter_eq_self.mpr
    intro d hd
    rw [hcomponents] at hd
    have hc : c ≠ .here := by
      rintro rfl
      exact hlone (h.here (by rw [hcomponents, List.head?_cons]))
    rcases List.mem_cons.mp hd with rfl | hd
    · simpa using hc
    · have hrest := here_notMem_tail hcomponents
      have : d ≠ .here := fun hhere => hrest (hhere ▸ hd)
      simpa using this

/-- A root keeps output paths apart. -/
theorem IsOutput.same_of_join_same (hp : p.IsOutput) (hq : q.IsOutput)
    (h : (base.join p).same (base.join q) = true) : p.same q = true := by
  by_cases hbase : base.text = ""
  · rwa [join_of_empty hbase hp.relative, join_of_empty hbase hq.relative] at h
  · rw [same, beq_iff_eq, components_join hbase hp.relative, components_join hbase hq.relative,
      List.append_cancel_left_eq, hp.filter_here, hq.filter_here] at h
    rw [same, beq_iff_eq]
    split_ifs at h with hlone hlone' hlone'
    · rw [hlone, hlone']
    · exact absurd h.symm hq.nonempty
    · exact absurd h hp.nonempty
    · exact h

/-- The path that names make up has the form of an output path. -/
theorem isOutput_ofNames {names : List String} (hne : names ≠ []) (h : ∀ s ∈ names, IsName s) :
    (ofNames names).IsOutput := by
  have hcomponents := components_ofNames h
  obtain ⟨name, names, rfl⟩ := List.exists_cons_of_ne_nil hne
  rw [List.map_cons] at hcomponents
  refine ⟨?_, by simp [hcomponents], by simp [hcomponents]⟩
  rw [← Bool.not_eq_true, isAbsolute_iff]
  simp [hcomponents]

/-! ### Replaced extensions -/

/-- A relative path whose first text between slashes is not a dot followed by more. -/
theorem isOutput_of_segments {first : List Char} {rest : List (List Char)}
    (h : p.segments = first :: rest) (hne : first ≠ []) (hdot : first = ['.'] → rest = []) :
    p.IsOutput := by
  have hrelative : p.isAbsolute = false := isAbsolute_eq_false_of_segments h hne
  have hcomponents := components_of_segments h
  rw [hrelative, leadingComponent?_false] at hcomponents
  split_ifs at hcomponents with hfirst
  · rw [hdot hfirst] at hcomponents
    exact ⟨hrelative, by simp [hcomponents], fun _ => hcomponents⟩
  · have hsome : innerComponent? first ≠ none := by
      rw [ne_eq, innerComponent?_eq_none_iff]
      simp [isEmptySegment, hne, hfirst]
    obtain ⟨c, hc⟩ := Option.ne_none_iff_exists'.mp hsome
    have hhere : c ≠ .here := by
      rcases eq_up_or_name_of_innerComponent? hc with rfl | rfl <;> simp
    rw [hc] at hcomponents
    exact ⟨hrelative, by simp [hcomponents], by simp [hcomponents, hhere]⟩

/-- What stands before an extension has no slash in it. -/
theorem segments_of_notMem {base : List Char} (h : '/' ∉ base) :
    segments ⟨String.ofList base⟩ = [base] := by
  have hsplit := splitOn_append_of_notMem h []
  simpa [segments] using hsplit

/-- With a new extension, the slashes are those of this extension. -/
theorem segments_of_extension {base : List Char} (h : '/' ∉ base) (new : String) :
    segments ⟨String.ofList base ++ "." ++ new⟩ =
      (segments ⟨new⟩).modifyHead fun first => base ++ '.' :: first := by
  have htext : (String.ofList base ++ "." ++ new).toList = base ++ '.' :: new.toList := by simp
  obtain ⟨first, more, hsplit⟩ :=
    List.exists_cons_of_ne_nil (List.splitOn_ne_nil '/' new.toList)
  rw [segments, htext, splitOn_append_of_notMem h, List.splitOn_cons_eq_if_modifyHead, segments,
    hsplit]
  simp

/-- What stands before an extension has the form of an output path, alone or with a dot and
any text after it. -/
theorem isOutput_of_base {base : List Char} (hne : base ≠ []) (hslash : '/' ∉ base)
    (new : String) :
    IsOutput ⟨if new.isEmpty then String.ofList base else String.ofList base ++ "." ++ new⟩ := by
  split_ifs
  · exact isOutput_of_segments (segments_of_notMem hslash) hne fun _ => rfl
  · obtain ⟨first, more, hnew⟩ := (Path.mk new).exists_segments_eq
    have hsegments := segments_of_extension hslash new
    rw [hnew, List.modifyHead_cons] at hsegments
    obtain ⟨c, rest, rfl⟩ := List.exists_cons_of_ne_nil hne
    exact isOutput_of_segments hsegments (by simp) (by simp)

/-- Replacing the name of an output path by a path of the same form keeps the form. -/
theorem IsOutput.withFileName {name new : String} (h : p.IsOutput)
    (hname : p.fileName? = some name) (hnew : IsOutput ⟨new⟩) : (p.withFileName new).IsOutput := by
  obtain ⟨init, hinit⟩ := components_of_fileName? hname
  have hcomponents := components_withFileName hinit hnew.relative
  split_ifs at hcomponents with hnil
  · refine ⟨?_, hcomponents ▸ hnew.nonempty, by rw [hcomponents]; exact hnew.here⟩
    rw [← Bool.not_eq_true, isAbsolute_iff, hcomponents, ← isAbsolute_iff, hnew.relative]
    simp
  · obtain ⟨c, init, rfl⟩ := List.exists_cons_of_ne_nil hnil
    have hhead : (p.withFileName new).components.head? = p.components.head? := by
      rw [hcomponents, hinit]
      rfl
    refine ⟨?_, by simp [hcomponents], fun hhere => ?_⟩
    · rw [← Bool.not_eq_true, isAbsolute_iff, hhead, ← isAbsolute_iff, h.relative]
      simp
    · have hlone := h.here (hhead ▸ hhere)
      simp [hinit] at hlone

/-- Something stands before an extension of a path, and no slash is in it. -/
theorem HasExtension.exists_base {old : String} (h : p.HasExtension old) :
    ∃ base : List Char, base ≠ [] ∧ '/' ∉ base ∧
      p.fileName?.bind (baseName? · old) = some (String.ofList base) := by
  obtain ⟨-, name, before, hname, hne, hbefore⟩ := h
  refine ⟨before, hne, fun hmem => ?_, by rw [hname, Option.bind_some, baseName?_eq hbefore]⟩
  have hwhole := slash_notMem_of_fileName? hname
  rw [hbefore] at hwhole
  exact hwhole (List.mem_append_left _ hmem)

/-- Replacing an extension of an output path keeps its form. -/
theorem IsOutput.replaceExtension {old : String} (h : p.IsOutput) (hold : p.HasExtension old)
    (new : String) : (p.replaceExtension old new).IsOutput := by
  obtain ⟨base, hne, hslash, hbase⟩ := hold.exists_base
  obtain ⟨name, hname, -⟩ := Option.bind_eq_some_iff.mp hbase
  rw [Path.replaceExtension, hbase]
  exact h.withFileName hname (isOutput_of_base hne hslash new)

end Path

/-- The transformer has `new` for an extension of the path, and it has nothing for longer ones. -/
structure Transformer.Replaces (t : Transformer) (p : Path) (old new : String) : Prop where
  mem : old ∈ p.extensionCandidates
  remap?_eq : t.remap? old = some new
  longest : ∀ other ∈ p.extensionCandidates, other ∈ t.extensionRemap.keys →
    other.length ≤ old.length

theorem Transformer.Replaces.hasExtension {t : Transformer} {p : Path} {old new : String}
    (h : t.Replaces p old new) : p.HasExtension old :=
  Path.mem_extensionCandidates_iff.mp h.mem

namespace OutputPath

variable {o : OutputPath} {t : Transformer} {p : Path} {old new : String}

/-! ### What a transformer replaces -/

theorem remapped?_eq_none_iff : remapped? t p = none ↔
    ∀ e ∈ p.extensionCandidates, e ∉ t.extensionRemap.keys := by
  rw [remapped?, List.findSome?_eq_none_iff]
  simp only [Option.map_eq_none_iff, Transformer.remap?, Dict.find?_eq_none_iff]

/-- The longest extension that the transformer has something for is the one that it replaces. -/
theorem replaces_of_remapped? (h : remapped? t p = some (old, new)) : t.Replaces p old new := by
  obtain ⟨e, hmem, he, hlongest⟩ := Path.exists_longest_of_findSome? h
  obtain ⟨e', hremap, heq⟩ := Option.map_eq_some_iff.mp he
  obtain ⟨rfl, rfl⟩ := Prod.mk.inj heq
  refine ⟨hmem, hremap, fun other hother hkey => ?_⟩
  apply hlongest other hother
  rw [Option.isSome_map]
  exact Dict.contains_iff.mpr hkey

theorem afterTransformer_of_eq_none (h : remapped? t o.path = none) :
    o.afterTransformer t = o := by
  rw [afterTransformer, h]

theorem afterTransformer_of_eq_some (h : remapped? t o.path = some (old, new)) :
    o.afterTransformer t = ⟨o.path.replaceExtension old new, some t.id⟩ := by
  rw [afterTransformer, h]

/-! ### What is kept -/

/-- A transformer keeps the form of an output path. -/
theorem isOutput_afterTransformer (h : o.path.IsOutput) (t : Transformer) :
    (o.afterTransformer t).path.IsOutput := by
  cases hremap : remapped? t o.path with
  | none => rwa [afterTransformer_of_eq_none hremap]
  | some remap =>
    obtain ⟨old, new⟩ := remap
    rw [afterTransformer_of_eq_some hremap]
    exact h.replaceExtension (replaces_of_remapped? hremap).hasExtension new

/-- One more step works on what the steps before it left. -/
theorem ofSteps_concat (source : Path) (steps : List PlannedStep) (s : PlannedStep) :
    ofSteps source (steps ++ [s]) = (ofSteps source steps).afterTransformer s.transformer :=
  List.foldl_concat ..

/-- The output path of a source has the form of an output path. -/
theorem isOutput_ofSteps {source : Path} (h : source.IsOutput) (steps : List PlannedStep) :
    (ofSteps source steps).path.IsOutput := by
  induction steps using List.reverseRecOn with
  | nil => exact h
  | append_singleton steps s ih =>
    rw [ofSteps_concat]
    exact isOutput_afterTransformer ih s.transformer

end OutputPath

end Filewise
