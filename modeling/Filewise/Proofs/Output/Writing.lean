import Filewise.Output
import Filewise.Proofs.Tree.Changes
import Filewise.Proofs.Tree.Directories

/-!
# Writing output files

An output file is put at the location that its destination spells out, over an older
file but never over a directory. Whether that succeeds depends on what kinds of things
stand at the destination and above it, not on contents, nor on what stands elsewhere.

## Main results

* `Tree.place_cases`: putting a file in place, by what the path ends in.
* `Outputs.makeDirectory_congr`, `Outputs.place_congr`: on what writing depends.
* `Outputs.grows_makeDirectory`, `Outputs.eq_put_of_place`: what writing changes.
-/

namespace Filewise

namespace Tree

variable {t t' : Tree} {l : Location} {p : Path} {above names : Location} {name : String}

/-! ### Putting files in place -/

/-- A path ends in the last text between its slashes that is not empty. -/
theorem splitLast_append {before trailing : List (List Char)} {last : List Char} (hlast : last ≠ [])
    (htrailing : ∀ segment ∈ trailing, segment = []) :
    splitLast (before ++ last :: trailing) = (before,
      if last = ['.'] ∨ last = ['.', '.'] then .other else .name last (trailing ≠ [])) := by
  have hkept : (before ++ last :: trailing).reverse.dropWhile List.isEmpty =
      last :: before.reverse := by
    rw [List.reverse_append, List.reverse_cons, List.append_assoc, List.singleton_append,
      List.dropWhile_append_of_pos, List.dropWhile_cons_of_neg]
    · simpa using hlast
    · intro segment hsegment
      simpa using htrailing segment (List.mem_reverse.mp hsegment)
  have hslash : before.length + 1 < (before ++ last :: trailing).length ↔ trailing ≠ [] := by
    rw [List.length_append, List.length_cons, ← List.length_pos_iff]
    omega
  simp only [splitLast, hkept, List.length_cons, List.length_reverse, hslash, List.reverse_reverse]

/-- Texts that do not all stand for nothing end in one that is not empty. -/
theorem exists_eq_append_last {segments : List (List Char)}
    (h : ∃ segment ∈ segments, segment ≠ []) :
    ∃ before last trailing, segments = before ++ last :: trailing ∧ last ≠ [] ∧
      ∀ segment ∈ trailing, segment = [] := by
  induction segments using List.reverseRecOn with
  | nil => simp at h
  | append_singleton segments final ih =>
    -- an empty text at the end is one of those that trail
    by_cases hfinal : final = []
    · obtain ⟨segment, hsegment, hne⟩ := h
      have hmem : segment ∈ segments := by
        rcases List.mem_append.mp hsegment with hmem | hmem
        · exact hmem
        · exact absurd ((List.mem_singleton.mp hmem).trans hfinal) hne
      obtain ⟨before, last, trailing, rfl, hlast, htrailing⟩ := ih ⟨segment, hmem, hne⟩
      refine ⟨before, last, trailing ++ [final], by simp, hlast, fun segment hsegment => ?_⟩
      rcases List.mem_append.mp hsegment with hmem | hmem
      · exact htrailing segment hmem
      · exact (List.mem_singleton.mp hmem).trans hfinal
    · exact ⟨segments, final, [], rfl, hfinal, by simp⟩

/-- A path without double dots ends in its name, or in a dot after it. -/
theorem splitLast_cases (hp : p.components = .root :: (above ++ [name]).map .name) :
    ∃ before names ending, splitLast p.segments = ([] :: before, ending) ∧
      before.filterMap Path.innerComponent? = names.map .name ∧
      (ending = .other ∧ names = above ++ [name] ∨
        ∃ slash, ending = .name name.toList slash ∧ names = above) := by
  obtain ⟨rest, -, hsegments, hnames⟩ := segments_of_components hp
  have hexists : ∃ segment ∈ rest, segment ≠ [] := by
    by_contra! hall
    have hnil : rest.filterMap Path.innerComponent? = [] :=
      List.filterMap_eq_nil_iff.mpr fun segment hsegment => by
        rw [hall segment hsegment]
        rfl
    simp [hnil] at hnames
  obtain ⟨before, last, trailing, rfl, hlast, htrailing⟩ := exists_eq_append_last hexists
  have hempty : trailing.filterMap Path.innerComponent? = [] :=
    List.filterMap_eq_nil_iff.mpr fun segment hsegment => by
      rw [htrailing segment hsegment]
      rfl
  rw [hsegments, ← List.cons_append, splitLast_append hlast htrailing]
  rw [List.filterMap_append, List.filterMap_cons, hempty] at hnames
  -- the last text that is not empty is a dot after the name, or the name
  rcases innerComponent?_cases last with ⟨hs, hc⟩ | ⟨-, hc⟩ | ⟨⟨hs, hup⟩, hc⟩
  · rw [hc, List.append_nil] at hnames
    exact ⟨before, above ++ [name], _, rfl, hnames,
      Or.inl ⟨if_pos (Or.inl (hs.resolve_left hlast)), rfl⟩⟩
  · rw [hc, List.map_append] at hnames
    simpa using (List.append_inj' hnames rfl).2
  · rw [hc, List.map_append] at hnames
    obtain ⟨hbefore, hname⟩ := List.append_inj' hnames rfl
    obtain rfl := Component.name.inj (List.cons.inj hname).1
    refine ⟨before, above, _, rfl, hbefore, Or.inr ⟨decide (trailing ≠ []), ?_, rfl⟩⟩
    rw [if_neg (by tauto), String.toList_ofList]

/-- A file is put in place below the directory that going down leads to, unless its path
is refused, or ends in a dot or a slash. -/
theorem place_cases (hp : p.components = .root :: (above ++ [name]).map .name) :
    (∃ e, ∀ (t : Tree) content, t.place p content = .error e) ∨
    (∀ (t : Tree) content, t.place p content =
      t.descend [] (above ++ [name]) >>= fun _ => .error .busy) ∨
    ∃ slash : Bool, ∀ (t : Tree) content,
      t.place p content = t.descend [] above >>= fun directory =>
      if isTooLong name.toList then .error .nameTooLong
      else if slash then .error .notDirectory
      else if t.hasDirectory (directory ++ [name]) then .error .isDirectory
      else .ok (t.put (directory ++ [name]) (.file content)) := by
  have habs : p.isAbsolute = true := Path.isAbsolute_of_components hp
  cases hrefused : refusal? p with
  | some e => exact Or.inl ⟨e, fun t content => by simp only [place, resolveParent, hrefused]; rfl⟩
  | none =>
    obtain ⟨before, names, ending, hsplit, hnames, hending⟩ := splitLast_cases hp
    refine Or.inr ?_
    -- after a dot the directory itself is meant, and it cannot be put anywhere
    rcases hending with ⟨rfl, rfl⟩ | ⟨slash, rfl, rfl⟩
    · refine Or.inl fun t content => ?_
      rw [place, resolveParent_eq habs hrefused hsplit hnames]
      cases t.descend [] (above ++ [name]) <;> rfl
    · refine Or.inr ⟨slash, fun t content => ?_⟩
      rw [place, resolveParent_eq habs hrefused hsplit hnames]
      cases t.descend [] names with
      | error e => rfl
      | ok directory =>
        simp only [bind, Except.bind, String.ofList_toList]
        split_ifs <;> rfl

/-- Where going down leads depends on the kinds of things that stand on the way. -/
theorem descend_congr {place : Location}
    (h : ∀ l, l <+: names → SameKind t t' (place ++ l)) :
    t.descend place names = t'.descend place names := by
  induction names generalizing place with
  | nil =>
    have hplace := h [] List.nil_prefix
    rw [List.append_nil] at hplace
    rw [descend, descend, hplace.2]
  | cons name rest ih =>
    have hplace := h [] List.nil_prefix
    have hnext := h [name] (List.prefix_append [name] rest)
    rw [List.append_nil] at hplace
    have hrest : t.descend (place ++ [name]) rest = t'.descend (place ++ [name]) rest := by
      apply ih
      intro l hl
      rw [List.append_assoc]
      exact h _ ((List.prefix_append_right_inj [name]).mpr hl)
    rw [descend, descend, hplace.2, hnext.1, hrest]

/-- Whoever can go down arrives at the directory that the names spell out. -/
theorem eq_of_descend {place l : Location} (h : t.descend place names = .ok l) :
    l = place ++ names ∧ t.hasDirectory l = true := by
  induction names generalizing place with
  | nil =>
    unfold descend at h
    split_ifs at h with hplace
    obtain rfl := Except.ok.inj h
    exact ⟨(List.append_nil _).symm, hplace⟩
  | cons name rest ih =>
    unfold descend at h
    split_ifs at h
    have := ih h
    rwa [List.append_assoc, List.singleton_append] at this

/-- Whether a file can be put in place depends on the kinds of things that stand there and
above. -/
theorem place_congr (hp : p.components = .root :: (above ++ [name]).map .name)
    (h : ∀ l, l <+: above ++ [name] → SameKind t t' l) (content content' : ByteArray) :
    (fun _ => ()) <$> t.place p content = (fun _ => ()) <$> t'.place p content' := by
  have habove : t.descend [] above = t'.descend [] above :=
    descend_congr fun l hl => h l (hl.trans (List.prefix_append above [name]))
  have hnames : t.descend [] (above ++ [name]) = t'.descend [] (above ++ [name]) := descend_congr h
  have hend := (h _ List.prefix_rfl).2
  rcases place_cases hp with ⟨e, hplace⟩ | hplace | ⟨slash, hplace⟩
  · rw [hplace, hplace]
  · rw [hplace, hplace, hnames]
  · rw [hplace, hplace, habove]
    cases hdescend : t'.descend [] above with
    | error e => rfl
    | ok directory =>
      obtain rfl : directory = above := (eq_of_descend hdescend).1
      simp only [bind, Except.bind, hend]
      split_ifs <;> rfl

/-- Where a file can be put in place, it can also be put over another one, as long as the same
kinds of things stand above. -/
theorem exists_place_of_place {content : ByteArray}
    (hp : p.components = .root :: (above ++ [name]).map .name)
    (h : ∀ l, l <+: above → SameKind t t' l) (hend : t'.hasDirectory (above ++ [name]) = false)
    {after : Tree} (hok : t.place p content = .ok after) (content' : ByteArray) :
    ∃ after', t'.place p content' = .ok after' := by
  rcases place_cases hp with ⟨e, hplace⟩ | hplace | ⟨slash, hplace⟩
  · rw [hplace] at hok
    simp at hok
  · rw [hplace] at hok
    cases hdescend : t.descend [] (above ++ [name]) <;> simp [hdescend, bind, Except.bind] at hok
  · have habove : t.descend [] above = t'.descend [] above := descend_congr h
    rw [hplace, habove] at hok
    rw [hplace]
    cases hdescend : t'.descend [] above with
    | error e => simp [hdescend, bind, Except.bind] at hok
    | ok directory =>
      obtain rfl := (eq_of_descend hdescend).1
      simp only [hdescend, bind, Except.bind] at hok ⊢
      rw [hend]
      split_ifs at hok with hlong hslash
      exact ⟨_, by rw [if_neg hlong, if_neg hslash]; rfl⟩

/-- A file is put at the location that its path spells out, in a directory and not over
one. -/
theorem eq_put_of_place {content : ByteArray}
    (hp : p.components = .root :: (above ++ [name]).map .name) (h : t.place p content = .ok t') :
    t' = t.put (above ++ [name]) (.file content) ∧ t.hasDirectory above = true ∧
      t.hasDirectory (above ++ [name]) = false := by
  rcases place_cases hp with ⟨e, hplace⟩ | hplace | ⟨slash, hplace⟩
  · rw [hplace] at h
    simp at h
  · rw [hplace] at h
    cases hdescend : t.descend [] (above ++ [name]) <;> simp [hdescend, bind, Except.bind] at h
  · rw [hplace] at h
    cases hdescend : t.descend [] above with
    | error e => simp [hdescend, bind, Except.bind] at h
    | ok directory =>
      obtain ⟨rfl, hdirectory⟩ := eq_of_descend hdescend
      simp only [hdescend, bind, Except.bind] at h
      split_ifs at h with _ _ hend
      exact ⟨(Except.ok.inj h).symm, hdirectory, by simpa using hend⟩

end Tree

namespace Outputs

variable {t t' : Tree} {root path : Path} {above : Location} {name : String}

/-! ### Directories of output files -/

/-- The directory of an output file is the one that its destination names it in. -/
theorem directory_spec
    (h : (destination root path).components = .root :: (above ++ [name]).map .name) :
    (directory root path).IsTidy ∧ (directory root path).components = .root :: above.map .name := by
  have habs : (destination root path).isAbsolute = true := Path.isAbsolute_of_components h
  have hsplit : (destination root path).components =
      (.root :: above.map .name) ++ [.name name] := by
    rw [h, List.map_append, List.cons_append, List.map_singleton]
  obtain ⟨q, hparent, hq, -⟩ := Path.exists_parent? hsplit
  rw [directory, hparent, Option.getD_some]
  exact ⟨Path.isTidy_of_parent? habs hsplit (by simp) hparent, hq⟩

/-- What the directory of an output file is made like. -/
theorem makeDirectory_eq (t : Tree) (root path : Path) :
    makeDirectory t root path = ((t.makeDirectories (directory root path)).1,
      (t.makeDirectories (directory root path)).2.mapError fun e =>
        .io (destination root path) (.system e)) := by
  unfold makeDirectory
  rcases t.makeDirectories (directory root path) with ⟨tree, result⟩
  cases result <;> rfl

/-- The directory of an output file is not made at all, whatever the tree, or its making goes
as the obstacles say. -/
theorem makeDirectories_cases
    (h : (destination root path).components = .root :: (above ++ [name]).map .name) :
    (∃ e, ∀ t : Tree, t.makeDirectories (directory root path) = (t, .error e)) ∨
      ∀ t : Tree, t.Closed → Tree.Made above t (t.makeDirectories (directory root path)) := by
  obtain ⟨htidy, hdirectory⟩ := directory_spec h
  -- whether a path is followed at all does not depend on the tree
  cases hrefused : Tree.refusal? (directory root path) with
  | some e =>
    have habs : (directory root path).isAbsolute = true := Path.isAbsolute_of_components hdirectory
    exact Or.inl ⟨e, fun t =>
      Tree.makeDirectories_of_refusal? (Path.text_ne_empty_of_isAbsolute habs) hrefused⟩
  | none => exact Or.inr fun t ht => ht.made_makeDirectories htidy hdirectory hrefused

/-- Making the directory of an output file changes nothing but that directories are made
above its destination. -/
theorem grows_makeDirectory (ht : t.Closed)
    (h : (destination root path).components = .root :: (above ++ [name]).map .name) :
    Tree.Grows above t (makeDirectory t root path).1 := by
  rw [makeDirectory_eq]
  rcases makeDirectories_cases h with ⟨e, he⟩ | hmade
  · rw [he]
    exact Tree.Grows.refl above t
  · exact (hmade t ht).grows

theorem hasDirectory_of_makeDirectory (ht : t.Closed)
    (h : (destination root path).components = .root :: (above ++ [name]).map .name)
    (hok : (makeDirectory t root path).2 = .ok ()) :
    (makeDirectory t root path).1.hasDirectory above = true := by
  rw [makeDirectory_eq] at hok ⊢
  rcases makeDirectories_cases h with ⟨e, he⟩ | hmade
  · simp [he, Except.mapError] at hok
  · refine (hmade t ht).hasDirectory ?_
    cases hresult : (t.makeDirectories (directory root path)).2 with
    | error e => simp [hresult, Except.mapError] at hok
    | ok u => rfl

/-- Whether the directory of an output file can be made depends on the files above its
destination. -/
theorem makeDirectory_congr (ht : t.Closed) (ht' : t'.Closed)
    (h : (destination root path).components = .root :: (above ++ [name]).map .name)
    (hfile : ∀ l, l <+: above → t.hasFile l = t'.hasFile l) :
    (makeDirectory t root path).2 = (makeDirectory t' root path).2 := by
  rw [makeDirectory_eq, makeDirectory_eq]
  rcases makeDirectories_cases h with ⟨e, he⟩ | hmade
  · rw [he, he]
  · rw [(hmade t ht).outcome, (hmade t' ht').outcome, Tree.obstacle?_congr fun l hl => hfile l hl]

/-! ### Output files -/

/-- Whether an output file can be put in place depends on the kinds of things that stand at
its destination and above. -/
theorem place_congr
    (h : (destination root path).components = .root :: (above ++ [name]).map .name)
    (hkind : ∀ l, l <+: above ++ [name] → Tree.SameKind t t' l) (content content' : ByteArray) :
    (fun _ => ()) <$> place t root path content =
      (fun _ => ()) <$> place t' root path content' := by
  have hplace := Tree.place_congr h hkind content content'
  unfold place
  cases hleft : t.place (destination root path) content <;>
    cases hright : t'.place (destination root path) content' <;>
    rw [hleft, hright] at hplace <;> simp_all [Functor.map, Except.map]

/-- An output file is put at the location that its destination spells out, in a directory
and not over one. -/
theorem eq_put_of_place {content : ByteArray}
    (h : (destination root path).components = .root :: (above ++ [name]).map .name)
    (hok : place t root path content = .ok t') :
    t' = t.put (above ++ [name]) (.file content) ∧ t.hasDirectory above = true ∧
      t.hasDirectory (above ++ [name]) = false := by
  unfold place at hok
  split at hok
  · rename_i tree htree
    obtain rfl := Except.ok.inj hok
    exact Tree.eq_put_of_place h htree
  · simp at hok

/-- Where an output file can be put in place, it can also be put over another one. -/
theorem place_ok_of_place_ok {content content' : ByteArray}
    (h : (destination root path).components = .root :: (above ++ [name]).map .name)
    (hkind : ∀ l, l <+: above → Tree.SameKind t t' l)
    (hend : t'.hasDirectory (above ++ [name]) = false)
    (hok : (fun _ => ()) <$> place t root path content = .ok ()) :
    (fun _ => ()) <$> place t' root path content' = .ok () := by
  unfold place at hok ⊢
  cases hplace : t.place (destination root path) content with
  | error e => simp [hplace, Functor.map, Except.map] at hok
  | ok after =>
    obtain ⟨after', hafter'⟩ := Tree.exists_place_of_place h hkind hend hplace content'
    rw [hafter']
    rfl

/-! ### Well-formed trees -/

theorem wellFormed_makeDirectory (h : t.WellFormed) (root path : Path) :
    (makeDirectory t root path).1.WellFormed := by
  rw [makeDirectory_eq]
  exact h.makeDirectories _

theorem wellFormed_place {content : ByteArray} (h : t.WellFormed)
    (hok : place t root path content = .ok t') : t'.WellFormed := by
  unfold place at hok
  split at hok
  · rename_i tree htree
    obtain rfl := Except.ok.inj hok
    exact h.place htree
  · simp at hok

end Outputs

end Filewise
