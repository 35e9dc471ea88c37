import Filewise.Proofs.Path.Parent

/-!
# The extensions of a file name

An extension of a file is what follows a dot in its name, as long as something follows and as long
as something stands before the dot. So a file has one extension of each length at most, and they are
listed from the longest to the shortest.

## Main definitions

* `Path.HasExtension`: the extensions of a path, told by its name alone.

## Main results

* `Path.mem_extensionCandidates_iff`: exactly these are listed.
* `Path.HasExtension.eq_of_length`: the length tells the extension.
* `Path.pairwise_extensionCandidates`: longer ones come first.
* `Path.exists_longest_of_findSome?`: a search for some extension finds the longest one.
-/

namespace Filewise.Path

variable {p : Path} {name extension : String}

/-- The name of a file ends in a dot and the extension, neither of them empty, and something stands
before that dot. -/
def HasExtension (p : Path) (extension : String) : Prop :=
  extension ≠ "" ∧ ∃ name before, p.fileName? = some name ∧ before ≠ [] ∧
    name.toList = before ++ '.' :: extension.toList

theorem mem_afterDots_iff {text rest : List Char} :
    rest ∈ afterDots text ↔ ∃ before, text = before ++ '.' :: rest := by
  induction text with
  | nil => simp [afterDots]
  | cons c text ih =>
    have hcons : (∃ before, c :: text = before ++ '.' :: rest) ↔
        c = '.' ∧ text = rest ∨ ∃ before, text = before ++ '.' :: rest := by
      constructor
      · rintro ⟨before, hbefore⟩
        rcases before with _ | ⟨d, before⟩
        · exact Or.inl (List.cons.inj hbefore)
        · exact Or.inr ⟨before, (List.cons.inj hbefore).2⟩
      · rintro (⟨rfl, rfl⟩ | ⟨before, rfl⟩)
        · exact ⟨[], rfl⟩
        · exact ⟨c :: before, rfl⟩
    rw [hcons, afterDots]
    split_ifs with hc
    · rw [List.mem_cons, ih, eq_comm]
      simp [hc]
    · simp [hc, ih]

/-- What follows a later dot is shorter. -/
theorem pairwise_afterDots (text : List Char) :
    (afterDots text).Pairwise fun longer shorter => shorter.length < longer.length := by
  induction text with
  | nil => exact List.Pairwise.nil
  | cons c text ih =>
    rw [afterDots]
    split_ifs with hc
    · refine List.pairwise_cons.mpr ⟨fun rest hrest => ?_, ih⟩
      obtain ⟨before, rfl⟩ := mem_afterDots_iff.mp hrest
      simp
      omega
    · exact ih

/-- The extensions of a name are what follows its dots, apart from one at the start. -/
theorem mem_nameExtensions_iff : extension ∈ nameExtensions name ↔
    extension ≠ "" ∧ ∃ before, before ≠ [] ∧ name.toList = before ++ '.' :: extension.toList := by
  have hafter : extension.toList ∈ afterDots (withoutLeadingDot name.toList) ↔
      ∃ before, before ≠ [] ∧ name.toList = before ++ '.' :: extension.toList := by
    rw [mem_afterDots_iff]
    unfold withoutLeadingDot
    split
    · next rest hname =>
      -- a dot at the start may stand before another one, but is none itself
      rw [hname]
      constructor
      · rintro ⟨before, rfl⟩
        exact ⟨'.' :: before, List.cons_ne_nil _ _, rfl⟩
      · rintro ⟨before, hne, hbefore⟩
        obtain ⟨c, before, rfl⟩ := List.exists_cons_of_ne_nil hne
        exact ⟨before, (List.cons.inj hbefore).2⟩
    · next hdot =>
      constructor
      · rintro ⟨before, hbefore⟩
        refine ⟨before, ?_, hbefore⟩
        rintro rfl
        exact hdot _ hbefore
      · rintro ⟨before, -, hbefore⟩
        exact ⟨before, hbefore⟩
  rw [← hafter, nameExtensions, List.mem_map]
  constructor
  · rintro ⟨text, htext, rfl⟩
    rw [List.mem_filter] at htext
    rw [String.toList_ofList]
    refine ⟨?_, htext.1⟩
    rintro hempty
    simp [String.ofList_eq_empty_iff.mp hempty] at htext
  · rintro ⟨hne, hmem⟩
    refine ⟨extension.toList, List.mem_filter.mpr ⟨hmem, ?_⟩, String.ofList_toList⟩
    simpa using hne

/-- Exactly the extensions of a path are listed. -/
theorem mem_extensionCandidates_iff : extension ∈ p.extensionCandidates ↔
    p.HasExtension extension := by
  unfold extensionCandidates HasExtension
  cases hname : p.fileName? with
  | none => simp
  | some name => simp [mem_nameExtensions_iff]

/-- No slash is in an extension. -/
theorem HasExtension.slash_notMem (h : p.HasExtension extension) : '/' ∉ extension.toList := by
  obtain ⟨-, name, before, hname, -, hbefore⟩ := h
  have hwhole := slash_notMem_of_fileName? hname
  rw [hbefore] at hwhole
  intro hmem
  exact hwhole (List.mem_append_right _ (List.mem_cons_of_mem _ hmem))

/-- A path has one extension of each length at most. -/
theorem HasExtension.eq_of_length {other : String} (h : p.HasExtension extension)
    (h' : p.HasExtension other) (hlength : extension.length = other.length) :
    extension = other := by
  obtain ⟨-, name, before, hname, -, hbefore⟩ := h
  obtain ⟨-, name', before', hname', -, hbefore'⟩ := h'
  obtain rfl : name = name' := Option.some_inj.mp (hname.symm.trans hname')
  rw [← String.length_toList, ← String.length_toList] at hlength
  have hsuffix : '.' :: extension.toList = '.' :: other.toList :=
    (List.append_inj' (hbefore.symm.trans hbefore') (congrArg Nat.succ hlength)).2
  exact String.toList_inj.mp (List.cons.inj hsuffix).2

/-- Longer extensions are listed before shorter ones. -/
theorem pairwise_extensionCandidates (p : Path) :
    p.extensionCandidates.Pairwise fun longer shorter => shorter.length < longer.length := by
  unfold extensionCandidates
  split
  · next name hname =>
    rw [nameExtensions, List.pairwise_map]
    simpa using (pairwise_afterDots _).filter _
  · exact List.Pairwise.nil

/-- Of the extensions for which something is known, the longest one is found first. -/
theorem exists_longest_of_findSome? {β : Type} {f : String → Option β} {b : β}
    (h : p.extensionCandidates.findSome? f = some b) :
    ∃ e ∈ p.extensionCandidates, f e = some b ∧
      ∀ other ∈ p.extensionCandidates, (f other).isSome = true → other.length ≤ e.length := by
  obtain ⟨longer, e, shorter, hcandidates, he, hlonger⟩ := List.findSome?_eq_some_iff.mp h
  have hsorted := p.pairwise_extensionCandidates
  rw [hcandidates, List.pairwise_append, List.pairwise_cons] at hsorted
  rw [hcandidates]
  refine ⟨e, by simp, he, fun other hother hsome => ?_⟩
  rcases List.mem_append.mp hother with hother | hother
  · -- nothing is known for the extensions before the found one
    simp [hlonger other hother] at hsome
  · rcases List.mem_cons.mp hother with rfl | hother
    · exact Nat.le_refl _
    · exact Nat.le_of_lt (hsorted.2.1.1 other hother)

/-- What stands before a dot and an extension is left when both are dropped. -/
theorem baseName?_eq {name extension : String} {before : List Char}
    (h : name.toList = before ++ '.' :: extension.toList) :
    baseName? name extension = some (String.ofList before) := by
  have hsuffix : ('.' :: extension.toList).isSuffixOf name.toList = true := by
    rw [List.isSuffixOf_iff_suffix, h]
    exact List.suffix_append _ _
  have htake : name.toList.take (name.toList.length - ('.' :: extension.toList).length) =
      before := by
    rw [h, List.length_append, Nat.add_sub_cancel, List.take_left]
  rw [baseName?, dropEnd?, if_pos hsuffix, htake, Option.map_some]

end Filewise.Path
