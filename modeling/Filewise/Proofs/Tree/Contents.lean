import Filewise.Output
import Filewise.Proofs.Tree.Changes

/-!
# Contents of files

A path spells out a place, seen from the working directory, whether or not it can be followed. A
file that is put in place gets its content there, and no file elsewhere is touched; making
directories touches no file at all.

## Main definitions

* `Tree.locate`: the place that a path spells out.
* `Tree.content?`: what the file at a place holds.
* `Tree.SameContents`: two trees with the same files.

## Main results

* `Tree.locate_join`: the places below a directory.
* `Outputs.sameContents_makeDirectory`, `Outputs.content?_of_place`: what becomes of files when an
  output file is written.
-/

namespace Filewise

namespace Tree

variable {t t' t'' : Tree} {p : Path} {l : Location} {segments : List (List Char)}

/-- The place that a path spells out, seen from the working directory. -/
def locate (t : Tree) (p : Path) : Location :=
  p.components.foldl Component.follow t.workingDirectory

/-- What the file at a place holds. -/
def content? (t : Tree) (l : Location) : Option ByteArray :=
  match t.find? l with
  | some (.file content) => some content
  | _ => none

/-- Two trees, seen from the same directory, with the same files. -/
structure SameContents (t t' : Tree) : Prop where
  workingDirectory : t'.workingDirectory = t.workingDirectory
  content? : ∀ l, t'.content? l = t.content? l

namespace SameContents

theorem refl (t : Tree) : SameContents t t := ⟨rfl, fun _ => rfl⟩

theorem trans (h : SameContents t t') (h' : SameContents t' t'') : SameContents t t'' :=
  ⟨h'.workingDirectory.trans h.workingDirectory, fun l => (h'.content? l).trans (h.content? l)⟩

end SameContents

/-! ### Where paths lead -/

/-- Dots at the start of a path lead nowhere. -/
theorem foldl_follow_filter (components : List Component) (place : Location) :
    (components.filter (· ≠ .here)).foldl Component.follow place =
      components.foldl Component.follow place := by
  induction components generalizing place with
  | nil => rfl
  | cons c components ih =>
    by_cases hc : c = .here
    · rw [hc, List.filter_cons_of_neg (by simp), ih]
      rfl
    · rw [List.filter_cons_of_pos (by simpa using hc), List.foldl_cons, List.foldl_cons, ih]

/-- A path spells out the same place as the texts between its slashes. -/
theorem locate_eq (t : Tree) (p : Path) :
    t.locate p =
      (p.segments.filterMap Path.innerComponent?).foldl Component.follow (t.start p) := by
  cases habs : p.isAbsolute with
  | true =>
    obtain ⟨rest, -, hsegments, hcomponents⟩ := segments_of_isAbsolute habs
    rw [locate, hcomponents, hsegments, start, if_pos habs]
    rfl
  | false =>
    rw [Path.filterMap_segments_of_relative habs, foldl_follow_filter, start, habs]
    rfl

/-- Before the name in which a path ends stand the texts that are followed to it, and behind it
only slashes. -/
theorem eq_append_of_splitLast {before : List (List Char)} {segment : List Char} {slash : Bool}
    (h : splitLast segments = (before, .name segment slash)) :
    ∃ trailing, segments = before ++ segment :: trailing ∧ ∀ text ∈ trailing, text = [] := by
  unfold splitLast at h
  dsimp only at h
  split at h
  · simp at h
  · rename_i last above hkept
    obtain ⟨rfl, hending⟩ := Prod.mk.inj h
    split_ifs at hending
    obtain ⟨rfl, -⟩ := Ending.name.inj hending
    refine ⟨(segments.reverse.takeWhile List.isEmpty).reverse, ?_, fun text htext => ?_⟩
    · have hsegments := List.takeWhile_append_dropWhile (p := List.isEmpty) (l := segments.reverse)
      rw [hkept] at hsegments
      calc segments = (segments.reverse.takeWhile List.isEmpty ++ last :: above).reverse := by
            rw [hsegments, List.reverse_reverse]
        _ = _ := by simp
    · simpa using List.all_eq_true.mp List.all_takeWhile text (List.mem_reverse.mp htext)

/-- A path that names something spells out the place of the name in its directory. -/
theorem locate_of_resolveParent {directory : Location} {segment : List Char} {slash : Bool}
    (h : t.resolveParent p = .ok (directory, .name segment slash)) :
    t.locate p = directory ++ [String.ofList segment] := by
  obtain ⟨before, hsplit, hwalk, -⟩ := exists_of_resolveParent h
  obtain ⟨trailing, hsegments, htrailing⟩ := eq_append_of_splitLast hsplit
  obtain ⟨-, hempty, hdot, hup⟩ := mem_of_splitLast hsplit
  have hname : Path.innerComponent? segment = some (.name (String.ofList segment)) := by
    rw [Path.innerComponent?, if_neg (by simp [hempty, hdot]), if_neg hup]
  have hnothing : trailing.filterMap Path.innerComponent? = [] :=
    List.filterMap_eq_nil_iff.mpr fun text htext => by
      rw [htrailing text htext]
      rfl
  rw [locate_eq, hsegments, List.filterMap_append, List.filterMap_cons_some hname, hnothing,
    List.foldl_append, ← eq_foldl_of_walk hwalk]
  rfl

/-- Relative paths of names spell out the places below a directory. -/
theorem locate_join (t : Tree) (root : Path) {path : Path} {names : List String}
    (hnames : path.components = names.map .name) :
    t.locate (root.join path) = t.locate root ++ names := by
  have hrelative : path.isAbsolute = false := by
    rw [← Bool.not_eq_true, Path.isAbsolute_iff, hnames]
    cases names <;> simp
  have hdots : path.components.filter (· ≠ .here) = path.components := by
    rw [hnames]
    exact List.filter_eq_self.mpr fun c hc => by
      obtain ⟨name, -, rfl⟩ := List.mem_map.mp hc
      simp
  by_cases hroot : root.text = ""
  · -- the empty path is the working directory
    have hjoin : root.join path = path := by
      simp [Path.join, hrelative, hroot]
    have hcomponents : root.components = [] := by
      simp [Path.components, Path.segments, Path.isAbsolute, hroot, Path.leadingComponent?]
    rw [hjoin, locate, locate, hcomponents, hnames, Component.foldl_follow_names]
    rfl
  · rw [locate, locate, Path.components_join hroot hrelative, hdots, hnames, List.foldl_append,
      Component.foldl_follow_names]

/-! ### What becomes of files -/

/-- Where nothing stood, a directory touches no file. -/
theorem SameContents.put (hnone : t.find? l = none) :
    SameContents t (t.put l .directory) := by
  have hl : l ≠ [] := by
    rintro rfl
    simp at hnone
  refine ⟨rfl, fun l' => ?_⟩
  unfold Tree.content?
  rw [find?_put t hl]
  split_ifs with heq
  · rw [heq, hnone]
  · rfl

theorem sameContents_makeDirectory (hok : t.makeDirectory p = .ok t') : SameContents t t' := by
  obtain ⟨directory, segment, slash, -, hnone, rfl⟩ := exists_of_makeDirectory hok
  exact SameContents.put hnone

theorem sameContents_makeDirectoryOr {ifMissing : Tree × Except SystemError Unit}
    (hmissing : SameContents t ifMissing.1) :
    SameContents t (t.makeDirectoryOr p ifMissing).1 := by
  unfold makeDirectoryOr
  split
  · rename_i hmake
    exact sameContents_makeDirectory hmake
  · exact hmissing
  · split_ifs
    · exact SameContents.refl t
    · exact SameContents.refl t

/-- Making directories touches no file, also if it fails half way. -/
theorem sameContents_makeDirectoriesWithin (levels : Nat) (t : Tree) (p : Path) :
    SameContents t (makeDirectoriesWithin levels t p).1 := by
  induction levels generalizing p with
  | zero => exact SameContents.refl t
  | succ levels ih =>
    unfold makeDirectoriesWithin
    split_ifs
    · exact SameContents.refl t
    · apply sameContents_makeDirectoryOr
      split
      · exact SameContents.refl t
      · rename_i above _
        have habove := ih above
        split <;> rename_i hmade <;> rw [hmade] at habove
        · exact habove
        · exact habove.trans (sameContents_makeDirectoryOr (SameContents.refl _))

/-- A file that is put in place holds its content, and no other file is touched. -/
theorem content?_of_place {content : ByteArray} (hok : t.place p content = .ok t') :
    t'.workingDirectory = t.workingDirectory ∧
      ∀ l, t'.content? l = if l = t.locate p then some content else t.content? l := by
  obtain ⟨directory, segment, slash, hparent, -, rfl⟩ := exists_of_place hok
  refine ⟨rfl, fun l => ?_⟩
  unfold Tree.content?
  rw [find?_put t (by simp), locate_of_resolveParent hparent]
  split_ifs <;> rfl

end Tree

namespace Outputs

variable {t t' : Tree} {root path : Path}

/-- Making the directory of an output file touches no file. -/
theorem sameContents_makeDirectory (t : Tree) (root path : Path) :
    Tree.SameContents t (makeDirectory t root path).1 := by
  have hmade := Tree.sameContents_makeDirectoriesWithin
    ((directory root path).segments.length + 1) t (directory root path)
  unfold makeDirectory Tree.makeDirectories
  split <;> rename_i hdirectories <;> rw [hdirectories] at hmade <;> exact hmade

/-- An output file that is put in place holds its content, and no other file is touched. -/
theorem content?_of_place {content : ByteArray} (hok : place t root path content = .ok t') :
    t'.workingDirectory = t.workingDirectory ∧
      ∀ l, t'.content? l =
        if l = t.locate (destination root path) then some content else t.content? l := by
  unfold place at hok
  split at hok
  · rename_i tree htree
    obtain rfl := Except.ok.inj hok
    exact Tree.content?_of_place htree
  · simp at hok

end Outputs

end Filewise
