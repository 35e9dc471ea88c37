import Filewise.Path.Extension
import Mathlib.Data.List.Basic
import Mathlib.Tactic.Common

/-!
# Components of paths

Joining paths joins their component lists, and a path that is written from names is made
of these names. Paths are texts, so both facts go through the texts between the slashes.

## Main definitions

* `Path.IsName`: a text that names something in a directory.
* `Path.HasUp`: whether a double dot occurs in a path.

## Main results

* `Path.components_join`: the components of a joined path.
* `Path.components_ofNames`: names make up the path that was written from them.
* `Path.components_join_of_names`: a path that is made of names is kept when it is joined.
-/

namespace Filewise.Path

variable {p q base : Path}

/-- A text that names something in a directory. -/
def IsName (s : String) : Prop := s ≠ "" ∧ s ≠ "." ∧ s ≠ ".." ∧ '/' ∉ s.toList

instance (s : String) : Decidable (IsName s) := inferInstanceAs (Decidable (_ ∧ _))

/-- A double dot occurs in the path. -/
def HasUp (p : Path) : Prop := Component.up ∈ p.components

instance (p : Path) : Decidable p.HasUp := inferInstanceAs (Decidable (_ ∈ _))

/-! ### Texts between slashes -/

theorem segments_ne_nil (p : Path) : p.segments ≠ [] := List.splitOn_ne_nil _ _

/-- The first text between slashes and those that follow. -/
theorem exists_segments_eq (p : Path) : ∃ first rest, p.segments = first :: rest :=
  List.exists_cons_of_ne_nil p.segments_ne_nil

theorem components_of_segments {first : List Char} {rest : List (List Char)}
    (h : p.segments = first :: rest) :
    p.components =
      (leadingComponent? first p.isAbsolute).toList ++ rest.filterMap innerComponent? := by
  simp [components, h]

/-- No slash occurs between slashes. -/
theorem slash_notMem_of_mem_segments {segment : List Char} (h : segment ∈ p.segments) :
    '/' ∉ segment := by
  unfold segments at h
  generalize p.text.toList = text at h
  induction text generalizing segment with
  | nil => simp_all
  | cons c text ih =>
    rw [List.splitOn_cons_eq_if_modifyHead] at h
    split at h
    · rcases List.mem_cons.mp h with rfl | h
      · simp
      · exact ih h
    · -- the first text grows by a character that is no slash
      rename_i hc
      obtain ⟨first, rest, hsplit⟩ := List.exists_cons_of_ne_nil (List.splitOn_ne_nil '/' text)
      rw [hsplit, List.modifyHead_cons] at h
      rcases List.mem_cons.mp h with rfl | h
      · have hfirst : '/' ∉ first := ih (hsplit ▸ List.mem_cons_self)
        have hslash : ¬ '/' = c := fun h => hc (beq_iff_eq.mpr h.symm)
        simp [hslash, hfirst]
      · exact ih (hsplit ▸ List.mem_cons_of_mem _ h)

/-- A text without slashes belongs to the first text between slashes. -/
theorem splitOn_append_of_notMem {before : List Char} (h : '/' ∉ before) (after : List Char) :
    (before ++ after).splitOn '/' = (after.splitOn '/').modifyHead (before ++ ·) := by
  induction before with
  | nil =>
    obtain ⟨first, rest, hsplit⟩ := List.exists_cons_of_ne_nil (List.splitOn_ne_nil '/' after)
    simp [hsplit]
  | cons c before ih =>
    have hc : (c == '/') = false := by
      rw [beq_eq_false_iff_ne]
      rintro rfl
      exact h List.mem_cons_self
    obtain ⟨first, rest, hsplit⟩ := List.exists_cons_of_ne_nil (List.splitOn_ne_nil '/' after)
    rw [List.cons_append, List.splitOn_cons_eq_if_modifyHead,
      ih fun hmem => h (List.mem_cons_of_mem _ hmem), hsplit]
    simp [hc]

theorem isAbsolute_iff_head :
    p.isAbsolute = true ↔ ∃ rest, rest ≠ [] ∧ p.segments = [] :: rest := by
  unfold isAbsolute segments
  cases htext : p.text.toList with
  | nil => simp
  | cons c text =>
    rw [List.splitOn_cons_eq_if_modifyHead]
    obtain ⟨first, rest, hsplit⟩ := List.exists_cons_of_ne_nil (List.splitOn_ne_nil '/' text)
    by_cases hc : c = '/'
    · simp [hc]
    · simp [hc, hsplit]

/-- A path is relative if something stands before its first slash. -/
theorem isAbsolute_eq_false_of_segments {first : List Char} {rest : List (List Char)}
    (h : p.segments = first :: rest) (hne : first ≠ []) : p.isAbsolute = false := by
  rw [← Bool.not_eq_true, isAbsolute_iff_head]
  rintro ⟨rest', -, hrest'⟩
  exact hne (List.cons.inj (h.symm.trans hrest')).1

/-- What follows a slash is a name or a double dot. -/
theorem eq_up_or_name_of_innerComponent? {segment : List Char} {c : Component}
    (h : innerComponent? segment = some c) : c = .up ∨ c = .name (String.ofList segment) := by
  unfold innerComponent? at h
  split_ifs at h
  · exact Or.inl (Option.some_inj.mp h).symm
  · exact Or.inr (Option.some_inj.mp h).symm

theorem isName_of_innerComponent? {segment : List Char} {s : String}
    (h : innerComponent? segment = some (.name s)) (hslash : '/' ∉ segment) :
    IsName s ∧ s.toList = segment := by
  unfold innerComponent? at h
  split_ifs at h with hempty hup
  · simp at h
  · obtain rfl : String.ofList segment = s := Component.name.inj (Option.some_inj.mp h)
    have hne : ∀ t : String, segment ≠ t.toList → String.ofList segment ≠ t := by
      rintro t ht rfl
      exact ht String.toList_ofList.symm
    refine ⟨⟨hne "" fun h => hempty (Or.inl h), hne "." fun h => hempty (Or.inr h),
      hne ".." fun h => hup h, ?_⟩, String.toList_ofList⟩
    rwa [String.toList_ofList]

/-- The names that a path is made of name something. -/
theorem isName_of_mem_components {name : String} (h : .name name ∈ p.components) : IsName name := by
  obtain ⟨first, rest, hsegments⟩ := p.exists_segments_eq
  have hmem : ∃ segment ∈ p.segments, innerComponent? segment = some (.name name) := by
    rw [components_of_segments hsegments] at h
    rcases List.mem_append.mp h with h | h
    · refine ⟨first, by rw [hsegments]; exact List.mem_cons_self, ?_⟩
      unfold leadingComponent? at h
      split_ifs at h <;> simp_all
    · obtain ⟨segment, hsegment, hname⟩ := List.mem_filterMap.mp h
      exact ⟨segment, by rw [hsegments]; exact List.mem_cons_of_mem _ hsegment, hname⟩
  obtain ⟨segment, hsegment, hname⟩ := hmem
  exact (isName_of_innerComponent? hname (slash_notMem_of_mem_segments hsegment)).1

/-- Without a slash at its start, a path differs from what follows a slash only by a dot. -/
theorem leadingComponent?_false (segment : List Char) :
    leadingComponent? segment false =
      if segment = ['.'] then some .here else innerComponent? segment := by
  by_cases hnil : segment = []
  · simp [leadingComponent?, innerComponent?, hnil]
  · simp [leadingComponent?, hnil]

theorem leadingComponent?_ne_root (segment : List Char) :
    leadingComponent? segment false ≠ some .root := by
  rw [leadingComponent?_false]
  split
  · simp
  · intro h
    rcases eq_up_or_name_of_innerComponent? h with h | h <;> simp at h

/-- Only an absolute path starts at the root. -/
theorem isAbsolute_iff : p.isAbsolute = true ↔ p.components.head? = some .root := by
  obtain ⟨first, rest, hsegments⟩ := p.exists_segments_eq
  rw [components_of_segments hsegments]
  constructor
  · intro habs
    obtain ⟨rest', -, hrest'⟩ := isAbsolute_iff_head.mp habs
    obtain ⟨rfl, -⟩ := List.cons.inj (hsegments.symm.trans hrest')
    simp [leadingComponent?, habs]
  · intro hhead
    by_contra habs
    rw [Bool.not_eq_true] at habs
    rw [habs] at hhead
    -- otherwise the root would be what the first text or a later one stands for
    cases hlead : leadingComponent? first false with
    | none =>
      rw [hlead, Option.toList_none, List.nil_append] at hhead
      obtain ⟨segment, -, hsegment⟩ := List.mem_filterMap.mp (List.mem_of_head? hhead)
      rcases eq_up_or_name_of_innerComponent? hsegment with h | h <;> simp at h
    | some c =>
      rw [hlead] at hhead
      obtain rfl : c = .root := by simpa using hhead
      exact leadingComponent?_ne_root first hlead

theorem isAbsolute_of_components {rest : List Component} (h : p.components = .root :: rest) :
    p.isAbsolute = true := by
  rw [isAbsolute_iff, h]
  rfl

/-! ### Joining -/

/-- The texts between the slashes of two paths with a slash between them. -/
theorem segments_append_slash (a b : String) :
    segments ⟨a ++ "/" ++ b⟩ = segments ⟨a⟩ ++ segments ⟨b⟩ := by
  have htext : (a ++ "/" ++ b).toList = a.toList ++ '/' :: b.toList := by simp
  simp only [segments, htext, List.splitOn_append_cons_self]

theorem isAbsolute_append (a b : String) (h : a ≠ "") :
    isAbsolute ⟨a ++ b⟩ = isAbsolute ⟨a⟩ := by
  have hne : a.toList ≠ [] := by simpa using h
  obtain ⟨c, rest, hcons⟩ := List.exists_cons_of_ne_nil hne
  simp [isAbsolute, hcons]

/-- Dots are dropped from what follows a slash. -/
theorem filter_filterMap_innerComponent? (segments : List (List Char)) :
    (segments.filterMap innerComponent?).filter (· ≠ .here) =
      segments.filterMap innerComponent? := by
  apply List.filter_eq_self.mpr
  intro c hc
  obtain ⟨segment, -, hsegment⟩ := List.mem_filterMap.mp hc
  rcases eq_up_or_name_of_innerComponent? hsegment with rfl | rfl <;> simp

/-- What stands in a relative path, seen from a directory. -/
theorem filterMap_segments_of_relative (h : p.isAbsolute = false) :
    p.segments.filterMap innerComponent? = p.components.filter (· ≠ .here) := by
  obtain ⟨first, rest, hsegments⟩ := p.exists_segments_eq
  rw [components_of_segments hsegments, hsegments, h, List.filter_append,
    filter_filterMap_innerComponent?, leadingComponent?_false]
  -- only a dot at the start is a component of its own
  by_cases hdot : first = ['.']
  · simp [hdot, innerComponent?]
  · have hfirst := filter_filterMap_innerComponent? [first]
    rw [if_neg hdot]
    cases hinner : innerComponent? first with
    | none => simp [hinner]
    | some c =>
      rw [List.filterMap_cons_some hinner, List.filterMap_nil] at hfirst
      rw [List.filterMap_cons_some hinner, Option.toList_some, hfirst, List.singleton_append]

/-- The text of a joined path has a slash between the two parts. -/
theorem exists_text_join (h : base.text ≠ "") (hp : p.isAbsolute = false) :
    ∃ b : String, (base = ⟨b⟩ ∨ base = ⟨b ++ "/" ++ ""⟩) ∧ base.join p = ⟨b ++ "/" ++ p.text⟩ := by
  have hempty : base.text.isEmpty = false := by simpa using h
  unfold join
  rw [if_neg (by simp [hp]), hempty, Bool.false_or]
  split
  · rename_i hlast
    obtain ⟨b, hb⟩ := List.getLast?_eq_some_iff.mp (beq_iff_eq.mp hlast)
    have htext : base.text = String.ofList b ++ "/" := by
      rw [← String.toList_inj, hb]
      simp
    exact ⟨String.ofList b, Or.inr (by cases base; simp_all), by rw [htext]⟩
  · exact ⟨base.text, Or.inl rfl, rfl⟩

/-- A relative path that is seen from a directory adds its components to those of the
directory. -/
theorem components_join (h : base.text ≠ "") (hp : p.isAbsolute = false) :
    (base.join p).components = base.components ++ p.components.filter (· ≠ .here) := by
  obtain ⟨b, hbase, hjoin⟩ := exists_text_join h hp
  obtain ⟨first, rest, hb⟩ := (Path.mk b).exists_segments_eq
  have hjoined : (base.join p).segments = first :: (rest ++ p.segments) := by
    rw [hjoin, segments_append_slash, hb, List.cons_append]
  have habs : (base.join p).isAbsolute = base.isAbsolute := by
    rcases hbase with rfl | rfl
    · rw [hjoin, String.append_assoc, isAbsolute_append b _ h]
    · have hslash : b ++ "/" ≠ "" := by simp [String.append_eq_empty_iff]
      rw [hjoin, isAbsolute_append _ _ hslash, isAbsolute_append _ _ hslash]
  rw [components_of_segments hjoined, habs, List.filterMap_append,
    filterMap_segments_of_relative hp]
  rcases hbase with rfl | rfl
  · rw [components_of_segments hb, List.append_assoc]
  · have hslash : segments ⟨b ++ "/" ++ ""⟩ = first :: (rest ++ [[]]) := by
      rw [segments_append_slash, hb, List.cons_append]
      rfl
    rw [components_of_segments hslash, List.filterMap_append, ← List.append_assoc]
    simp [innerComponent?]

theorem isAbsolute_join (h : base.isAbsolute = true) (hp : p.isAbsolute = false) :
    (base.join p).isAbsolute = true := by
  have hne : base.text ≠ "" := by
    intro hempty
    simp [isAbsolute, hempty] at h
  rw [isAbsolute_iff] at h ⊢
  rw [components_join hne hp, List.head?_append, h, Option.some_or]

theorem text_ne_empty_of_isAbsolute (h : p.isAbsolute = true) : p.text ≠ "" := by
  intro hempty
  simp [isAbsolute, hempty] at h

theorem join_of_empty (hbase : base.text = "") (hp : p.isAbsolute = false) : base.join p = p := by
  simp [join, hp, hbase]

/-! ### Paths written from names -/

theorem innerComponent?_of_isName {s : String} (h : IsName s) :
    innerComponent? s.toList = some (.name s) := by
  have hne : ∀ t : String, s ≠ t → s.toList ≠ t.toList := fun t h h' => h (String.toList_inj.mp h')
  have hempty : s.toList ≠ [] := hne "" h.1
  have hdot : s.toList ≠ ['.'] := hne "." h.2.1
  have hup : s.toList ≠ ['.', '.'] := hne ".." h.2.2.1
  rw [innerComponent?, if_neg (by simp [hempty, hdot]), if_neg hup, String.ofList_toList]

/-- The texts between the slashes of a path that was written from names. -/
theorem segments_ofNames {names : List String} (hne : names ≠ []) (h : ∀ s ∈ names, IsName s) :
    (ofNames names).segments = names.map String.toList := by
  have hslash : ∀ segment ∈ names.map String.toList, '/' ∉ segment := by
    intro segment hsegment
    obtain ⟨s, hs, rfl⟩ := List.mem_map.mp hsegment
    exact (h s hs).2.2.2
  simpa [ofNames, segments, String.toList_intercalate] using
    List.splitOn_intercalate '/' hslash (by simpa using hne)

theorem map_name_injective : Function.Injective (List.map Component.name) :=
  List.map_injective_iff.mpr fun _ _ h => Component.name.inj h

/-- A path that was written from names is relative and has these names as its components. -/
theorem components_ofNames {names : List String} (h : ∀ s ∈ names, IsName s) :
    (ofNames names).components = names.map Component.name := by
  cases names with
  | nil => rfl
  | cons name names =>
    have hinner : ∀ names : List String, (∀ s ∈ names, IsName s) →
        (names.map String.toList).filterMap innerComponent? = names.map Component.name := by
      intro names hnames
      rw [List.filterMap_map]
      exact List.filterMap_eq_map_iff_forall_eq_some.mpr fun s hs =>
        innerComponent?_of_isName (hnames s hs)
    have hname := h name List.mem_cons_self
    have hsegments := segments_ofNames (List.cons_ne_nil name names) h
    rw [List.map_cons] at hsegments
    have habs : (ofNames (name :: names)).isAbsolute = false :=
      isAbsolute_eq_false_of_segments hsegments (by simpa using hname.1)
    rw [components_of_segments hsegments, hinner names fun s hs => h s (List.mem_cons_of_mem _ hs),
      habs, leadingComponent?_false, if_neg, innerComponent?_of_isName hname]
    · rfl
    · intro hdot
      exact hname.2.1 (String.toList_inj.mp hdot)

/-- Seen from elsewhere, nothing is lost of a path that is made of names. -/
theorem components_join_of_names {names : List String} (h : p.components = names.map .name)
    (base : Path) : (base.join p).components = base.components ++ names.map .name := by
  have hname : ∀ c ∈ p.components, ∃ name, c = .name name := by
    rw [h]
    intro c hc
    obtain ⟨name, -, rfl⟩ := List.mem_map.mp hc
    exact ⟨name, rfl⟩
  have hrelative : p.isAbsolute = false := by
    rw [← Bool.not_eq_true, isAbsolute_iff]
    intro hroot
    obtain ⟨name, hname⟩ := hname _ (List.mem_of_head? hroot)
    simp at hname
  have hfilter : p.components.filter (· ≠ .here) = p.components := by
    apply List.filter_eq_self.mpr
    intro c hc
    obtain ⟨name, rfl⟩ := hname c hc
    simp
  by_cases hbase : base.text = ""
  · have hnone : base.components = [] := by
      obtain ⟨text⟩ := base
      obtain rfl : text = "" := hbase
      rfl
    rw [join_of_empty hbase hrelative, h, hnone, List.nil_append]
  · rw [components_join hbase hrelative, hfilter, h]

end Filewise.Path
