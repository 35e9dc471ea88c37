import Filewise.Proofs.Path.Components
import Mathlib.Data.List.DropRight

/-!
# The path above a path

A path that ends in a name lies in the path above it, which has all components but
that name. The text of the path above is the start of the text of the path.

## Main results

* `Path.exists_parent?`: the path above a path that ends in a name.
* `Path.components_withFileName`: the components of a path whose name is replaced.
-/

namespace Filewise.Path

variable {p q : Path}

/-! ### Trailing texts that stand for nothing -/

theorem dropTrailing_eq (first : List Char) (rest : List (List Char)) :
    dropTrailing first rest = first :: rest.rdropWhile isEmptySegment := rfl

theorem innerComponent?_eq_none_iff (segment : List Char) :
    innerComponent? segment = none ↔ isEmptySegment segment = true := by
  unfold innerComponent? isEmptySegment
  split_ifs with h <;> simp [h]

/-- Dropping what stands for nothing keeps the components. -/
theorem filterMap_rdropWhile (segments : List (List Char)) :
    (segments.rdropWhile isEmptySegment).filterMap innerComponent? =
      segments.filterMap innerComponent? := by
  have htail : (segments.rtakeWhile isEmptySegment).filterMap innerComponent? = [] :=
    List.filterMap_eq_nil_iff.mpr fun segment hsegment =>
      (innerComponent?_eq_none_iff segment).mpr (List.mem_rtakeWhile_imp hsegment)
  have hsplit := List.rdropWhile_append_rtakeWhile (p := isEmptySegment) (l := segments)
  rw [← congrArg (List.filterMap innerComponent?) hsplit, List.filterMap_append, htail,
    List.append_nil]

/-- Unless nothing stands there, the last text that is kept stands for a component. -/
theorem exists_rdropWhile_eq {segments : List (List Char)}
    (h : segments.rdropWhile isEmptySegment ≠ []) :
    ∃ kept last c, segments.rdropWhile isEmptySegment = kept ++ [last] ∧
      innerComponent? last = some c := by
  have hlast := List.rdropWhile_last_not isEmptySegment segments h
  refine ⟨_, _, _, (List.dropLast_append_getLast h).symm, Option.eq_some_of_isSome ?_⟩
  rw [Option.isSome_iff_ne_none, ne_eq, innerComponent?_eq_none_iff]
  exact hlast

/-! ### Written texts -/

/-- What stands before the last texts between slashes starts the text. -/
theorem intercalate_prefix {segments more : List (List Char)} (h : segments ≠ []) :
    ['/'].intercalate segments <+: ['/'].intercalate (segments ++ more) := by
  induction segments with
  | nil => exact absurd rfl h
  | cons first segments ih =>
    cases segments with
    | nil =>
      cases more with
      | nil => simp
      | cons second more => simp [List.intercalate_cons_cons]
    | cons second segments =>
      rw [List.cons_append, List.cons_append, List.intercalate_cons_cons,
        List.intercalate_cons_cons, ← List.cons_append]
      exact (List.prefix_append_right_inj _).mpr (ih (List.cons_ne_nil _ _))

theorem toList_text_eq (p : Path) : p.text.toList = ['/'].intercalate p.segments :=
  (List.intercalate_splitOn '/').symm

/-- A path that is written with texts between its slashes has just these between them,
unless it is the root. -/
theorem segments_ofSegments {segments : List (List Char)} (hne : segments ≠ [])
    (hroot : segments ≠ [[]]) (h : ∀ segment ∈ segments, '/' ∉ segment) :
    (ofSegments segments).segments = segments := by
  unfold ofSegments
  split
  · exact absurd rfl hroot
  · rw [Path.segments, String.toList_ofList, List.splitOn_intercalate '/' h hne]

theorem leadingComponent?_congr {segment : List Char} (h : segment ≠ []) (a b : Bool) :
    leadingComponent? segment a = leadingComponent? segment b := by
  simp [leadingComponent?, h]

/-- The path that is written with the first ones of the texts between the slashes of a path
has the components they stand for. -/
theorem components_ofSegments {first : List Char} {kept rest : List (List Char)}
    (hp : p.segments = first :: rest) (hrest : rest ≠ []) (hkept : kept <+: rest) :
    (ofSegments (first :: kept)).components =
      (leadingComponent? first p.isAbsolute).toList ++ kept.filterMap innerComponent? := by
  have hslash : ∀ segment ∈ first :: kept, '/' ∉ segment := by
    intro segment hsegment
    refine slash_notMem_of_mem_segments (p := p) ?_
    rw [hp]
    exact (List.cons_subset_cons _ hkept.subset) hsegment
  have habs : first = [] → p.isAbsolute = true := by
    rintro rfl
    exact isAbsolute_iff_head.mpr ⟨rest, hrest, hp⟩
  -- the root is written with a slash, not with the empty text before it
  by_cases hroot : first :: kept = [[]]
  · obtain ⟨rfl, rfl⟩ := List.cons.inj hroot
    rw [habs rfl]
    decide
  · have hsegments := segments_ofSegments (List.cons_ne_nil _ _) hroot hslash
    rw [components_of_segments hsegments]
    by_cases hfirst : first = []
    · have hkept : kept ≠ [] := fun h => hroot (by rw [hfirst, h])
      rw [habs hfirst, isAbsolute_iff_head.mpr ⟨kept, hkept, hfirst ▸ hsegments⟩]
    · rw [leadingComponent?_congr hfirst]

/-- The text of such a path is the start of the text of the path. -/
theorem text_ofSegments_prefix {first : List Char} {kept rest : List (List Char)}
    (hp : p.segments = first :: rest) (hrest : rest ≠ []) (hkept : kept <+: rest) :
    (ofSegments (first :: kept)).text.toList <+: p.text.toList := by
  obtain ⟨more, rfl⟩ := hkept
  rw [toList_text_eq p, hp]
  unfold ofSegments
  split
  · rename_i hroot
    obtain ⟨rfl, rfl⟩ := List.cons.inj hroot
    obtain ⟨second, more, rfl⟩ := List.exists_cons_of_ne_nil hrest
    simp [List.intercalate_cons_cons]
  · rw [String.toList_ofList, ← List.cons_append]
    exact intercalate_prefix (List.cons_ne_nil _ _)

/-! ### The path above -/

/-- The path above one with several texts between its slashes is written with those before
the last one that stands for something. -/
theorem parent?_of_segments {first last : List Char} {rest kept : List (List Char)}
    (hp : p.segments = first :: rest) (heq : rest.rdropWhile isEmptySegment = kept ++ [last]) :
    p.parent? = some (ofSegments (first :: kept.rdropWhile isEmptySegment)) ∧
      rest ≠ [] ∧ kept.rdropWhile isEmptySegment <+: rest := by
  refine ⟨?_, ?_, ?_⟩
  · unfold parent?
    simp only [hp, dropTrailing_eq, heq]
    cases kept with
    | nil => rfl
    | cons second kept =>
      have hlast : (second :: (kept ++ [last])).dropLast = second :: kept :=
        @List.dropLast_concat _ (second :: kept) last
      simp only [List.cons_append, hlast]
  · rintro rfl
    simp at heq
  · have hrest : kept ++ [last] <+: rest := heq ▸ List.rdropWhile_prefix isEmptySegment rest
    exact List.IsPrefix.trans (List.rdropWhile_prefix isEmptySegment kept)
      ((List.prefix_append kept [last]).trans hrest)

/-- A path that ends in a name lies in the path above it. -/
theorem exists_parent? {init : List Component} {name : String}
    (h : p.components = init ++ [.name name]) :
    ∃ q, p.parent? = some q ∧ q.components = init ∧ q.text.toList <+: p.text.toList := by
  obtain ⟨first, rest, hsegments⟩ := p.exists_segments_eq
  have hcomponents := components_of_segments hsegments
  rw [h, ← filterMap_rdropWhile] at hcomponents
  -- only the first text stands for something, or there is a name after a slash
  by_cases hkept : rest.rdropWhile isEmptySegment = []
  · rw [hkept, List.filterMap_nil, List.append_nil] at hcomponents
    have hinit : init = [] := by
      have hlength := congrArg List.length hcomponents
      have hlead : (leadingComponent? first p.isAbsolute).toList.length ≤ 1 :=
        Option.length_toList_le
      rw [List.length_append, List.length_singleton] at hlength
      exact List.eq_nil_of_length_eq_zero (by omega)
    have hfirst : first ≠ [] := by
      rintro rfl
      cases habs : p.isAbsolute <;> simp_all [leadingComponent?]
    have habs : p.isAbsolute = false := isAbsolute_eq_false_of_segments hsegments hfirst
    refine ⟨⟨""⟩, ?_, by rw [hinit]; rfl, by simp⟩
    unfold parent?
    simp [hsegments, dropTrailing_eq, hkept, habs, hfirst]
  · obtain ⟨kept, last, c, heq, hc⟩ := exists_rdropWhile_eq hkept
    obtain ⟨hparent, hrest, hpre⟩ := parent?_of_segments hsegments heq
    rw [heq, List.filterMap_append, List.filterMap_cons_some hc, List.filterMap_nil,
      ← List.append_assoc] at hcomponents
    refine ⟨_, hparent, ?_, text_ofSegments_prefix hsegments hrest hpre⟩
    rw [components_ofSegments hsegments hrest hpre, filterMap_rdropWhile]
    exact (List.append_inj' hcomponents rfl).1.symm

example : (Path.mk "a/./b").parent? = some ⟨"a"⟩ := by decide +kernel

/-- The root, or a path that is written with a name at its end. -/
def IsTidy (p : Path) : Prop :=
  p.segments = [[], []] ∨ ∃ before name, p.segments = before ++ [name.toList] ∧ IsName name

/-- The path above a path without double dots is tidy. -/
theorem isTidy_of_parent? {init : List Component} {name : String} (habs : p.isAbsolute = true)
    (h : p.components = init ++ [.name name]) (hup : .up ∉ init) (hq : p.parent? = some q) :
    q.IsTidy := by
  obtain ⟨q', hq', hcomponents, -⟩ := exists_parent? h
  obtain rfl : q' = q := Option.some_inj.mp (hq'.symm.trans hq)
  obtain ⟨rest, -, hsegments⟩ := isAbsolute_iff_head.mp habs
  by_cases hkept : rest.rdropWhile isEmptySegment = []
  · simp [parent?, hsegments, dropTrailing_eq, hkept] at hq
  · obtain ⟨kept, last, -, heq, -⟩ := exists_rdropWhile_eq hkept
    obtain ⟨hparent, -, hpre⟩ := parent?_of_segments hsegments heq
    obtain rfl := Option.some_inj.mp (hparent.symm.trans hq')
    -- what is kept above is nothing but the root, or ends in a name again
    by_cases hroot : kept.rdropWhile isEmptySegment = []
    · rw [hroot]
      exact Or.inl rfl
    · obtain ⟨kept', last', c, heq', hc⟩ := exists_rdropWhile_eq hroot
      have hslash : ∀ segment ∈ [] :: (kept' ++ [last']), '/' ∉ segment := by
        intro segment hsegment
        refine slash_notMem_of_mem_segments (p := p) ?_
        rw [hsegments]
        exact (List.cons_subset_cons _ (heq' ▸ hpre).subset) hsegment
      rw [heq'] at hcomponents ⊢
      have hwritten := segments_ofSegments (List.cons_ne_nil [] (kept' ++ [last'])) (by simp) hslash
      have hmem : c ∈ init := by
        rw [← hcomponents, components_of_segments hwritten, List.filterMap_append,
          List.filterMap_cons_some hc, List.filterMap_nil]
        simp
      rcases eq_up_or_name_of_innerComponent? hc with rfl | rfl
      · exact absurd hmem hup
      · obtain ⟨hname, hlist⟩ := isName_of_innerComponent? hc (hslash last' (by simp))
        exact Or.inr ⟨[] :: kept', _, by rw [hwritten, hlist, List.cons_append], hname⟩

theorem text_eq_empty_of_components_eq_nil (h : p.components = []) : p.text = "" := by
  obtain ⟨first, rest, hsegments⟩ := p.exists_segments_eq
  rw [components_of_segments hsegments, List.append_eq_nil_iff] at h
  have hlead : leadingComponent? first p.isAbsolute = none := by simpa using h.1
  have hrelative : p.isAbsolute = false := by
    rw [← Bool.not_eq_true, isAbsolute_iff, components_of_segments hsegments, hlead]
    simp [h.2]
  rw [hrelative, leadingComponent?_false] at hlead
  have hfirst : first = [] := by
    unfold innerComponent? at hlead
    split_ifs at hlead with hdot hempty
    tauto
  have hrest : rest = [] := by
    by_contra hrest
    rw [isAbsolute_iff_head.mpr ⟨rest, hrest, hfirst ▸ hsegments⟩] at hrelative
    simp at hrelative
  rw [← String.toList_inj, toList_text_eq, hsegments, hfirst, hrest]
  simp

theorem fileName?_of_components {init : List Component} {name : String}
    (h : p.components = init ++ [.name name]) : p.fileName? = some name := by
  simp [fileName?, h]

theorem components_of_fileName? {name : String} (h : p.fileName? = some name) :
    ∃ init, p.components = init ++ [.name name] := by
  unfold fileName? at h
  split at h
  · rename_i last hlast
    obtain rfl := Option.some_inj.mp h
    exact List.getLast?_eq_some_iff.mp hlast
  · simp at h

/-- No slash is in the name of a file. -/
theorem slash_notMem_of_fileName? {name : String} (h : p.fileName? = some name) :
    '/' ∉ name.toList := by
  obtain ⟨init, hinit⟩ := components_of_fileName? h
  exact (isName_of_mem_components (p := p) (by simp [hinit])).2.2.2

/-- A path whose name is replaced has the components above the name, followed by those of
what replaces it. -/
theorem components_withFileName {init : List Component} {name new : String}
    (h : p.components = init ++ [.name name]) (hnew : isAbsolute ⟨new⟩ = false) :
    (p.withFileName new).components =
      if init = [] then (Path.mk new).components
      else init ++ (Path.mk new).components.filter (· ≠ .here) := by
  obtain ⟨q, hparent, hq, -⟩ := exists_parent? h
  unfold withFileName
  simp only [fileName?_of_components h, hparent, Option.getD_some]
  -- a path with an empty text above it is replaced as a whole
  split_ifs with hinit
  · have htext : q.text = "" := text_eq_empty_of_components_eq_nil (hq.trans hinit)
    simp [join, hnew, htext]
  · have htext : q.text ≠ "" := by
      intro htext
      apply hinit
      rw [← hq, show q = ⟨""⟩ by cases q; simp_all]
      rfl
    rw [components_join htext hnew, hq]

end Filewise.Path
