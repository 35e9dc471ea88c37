import Filewise.Proofs.Tree.Walk

/-!
# Well-formed trees stay well-formed

A path names something in a directory that is there, and by a text that is a name. So
whatever is made or put in place at a path, a well-formed tree stays well-formed: each
location is listed once, by its names, and stands in a directory.

## Main results

* `Tree.WellFormed.put`: something is put into a directory.
* `Tree.WellFormed.makeDirectories`, `Tree.WellFormed.place`: operations on paths keep
  trees well-formed, also those that fail.
-/

namespace Filewise.Tree

variable {t t' : Tree} {directory : Location} {name : String} {segment : List Char}
  {slash : Bool} {p : Path} {content : ByteArray} {e : Entry}

/-! ### Entries -/

/-- A closed tree is well-formed if each location is listed once, by its names. -/
theorem Closed.wellFormed (h : t.Closed) (hnodup : (t.entries.map Prod.fst).Nodup)
    (hnamed : ∀ entry ∈ t.entries, entry.1 ≠ [] ∧ ∀ s ∈ entry.1, Path.IsName s) :
    t.WellFormed := by
  refine ⟨hnodup, hnamed, ?_⟩
  rintro ⟨l, e⟩ hmem
  have hne := (hnamed _ hmem).1
  apply h l.dropLast (l.getLast hne)
  rw [List.dropLast_append_getLast, find?, if_neg hne, (lookup_eq_some_iff hnodup).mpr hmem]
  rfl

/-- What is put into a directory, in place of anything but a directory, keeps a tree
well-formed. -/
theorem WellFormed.put (h : t.WellFormed) (hname : Path.IsName name)
    (hdirectory : t.hasDirectory directory = true)
    (hold : e ≠ .directory → t.hasDirectory (directory ++ [name]) = false) :
    (t.put (directory ++ [name]) e).WellFormed := by
  have hsub : without (directory ++ [name]) t.entries ⊆ t.entries := List.filter_sublist.subset
  apply (h.toClosed.put e hdirectory hold).wellFormed
  · -- what was listed for the location is left out
    refine List.nodup_cons.mpr ⟨fun hmem => ?_, h.nodup.sublist (List.filter_sublist.map _)⟩
    obtain ⟨entry, hentry, heq⟩ := List.mem_map.mp hmem
    exact absurd heq (by simpa using (List.mem_filter.mp hentry).2)
  · intro entry hentry
    rcases List.mem_cons.mp hentry with rfl | hentry
    · -- the directory stands there by its names, and the name is one
      refine ⟨by simp, fun s hs => ?_⟩
      rcases List.mem_append.mp hs with hs | hs
      · exact h.isName (by rw [hasDirectory_iff.mp hdirectory]; rfl) s hs
      · exact List.mem_singleton.mp hs ▸ hname
    · exact h.named entry (hsub hentry)

/-! ### Where paths name something -/

/-- The name in which a path ends is one of the texts between its slashes, and no dots. -/
theorem mem_of_splitLast {segments before : List (List Char)}
    (h : splitLast segments = (before, .name segment slash)) :
    segment ∈ segments ∧ segment ≠ [] ∧ segment ≠ ['.'] ∧ segment ≠ ['.', '.'] := by
  unfold splitLast at h
  dsimp only at h
  split at h
  · simp at h
  · rename_i last above hkept
    have hmem : last ∈ segments.reverse.dropWhile List.isEmpty := by
      rw [hkept]
      exact List.mem_cons_self
    have hempty := List.head_dropWhile_not List.isEmpty (List.ne_nil_of_mem hmem)
    simp only [hkept, List.head_cons] at hempty
    obtain ⟨-, hending⟩ := Prod.mk.inj h
    split_ifs at hending with hdots
    obtain ⟨rfl, -⟩ := Ending.name.inj hending
    push Not at hdots
    refine ⟨List.mem_reverse.mp ((List.dropWhile_sublist _).subset hmem), ?_, hdots⟩
    simpa using hempty

/-- A path that names something leads to a directory, and ends in the name. -/
theorem exists_of_resolveParent (h : t.resolveParent p = .ok (directory, .name segment slash)) :
    ∃ before, splitLast p.segments = (before, .name segment slash) ∧
      t.walk (t.start p) before = .ok directory ∧ t.hasDirectory directory = true := by
  unfold resolveParent at h
  cases hrefused : refusal? p with
  | some e => simp [hrefused] at h
  | none =>
    rcases hsplit : splitLast p.segments with ⟨before, ending⟩
    simp only [hrefused, hsplit] at h
    cases hwalk : t.walk (t.start p) before with
    | error e => simp [hwalk, bind, Except.bind] at h
    | ok place =>
      simp only [hwalk, bind, Except.bind] at h
      split_ifs at h with hplace
      obtain ⟨rfl, rfl⟩ := Prod.mk.inj (Except.ok.inj h)
      exact ⟨before, rfl, hwalk, hplace⟩

/-- A path that names something names it in a directory, by a name. -/
theorem spec_of_resolveParent (h : t.resolveParent p = .ok (directory, .name segment slash)) :
    t.hasDirectory directory = true ∧ Path.IsName (String.ofList segment) := by
  obtain ⟨before, hsplit, -, hdirectory⟩ := exists_of_resolveParent h
  obtain ⟨hmem, hempty, hdot, hup⟩ := mem_of_splitLast hsplit
  refine ⟨hdirectory, ?_, ?_, ?_, ?_⟩
  · exact fun heq => hempty (by simpa using congrArg String.toList heq)
  · exact fun heq => hdot (by simpa using congrArg String.toList heq)
  · exact fun heq => hup (by simpa using congrArg String.toList heq)
  · rw [String.toList_ofList]
    exact Path.slash_notMem_of_mem_segments hmem

/-! ### Operations -/

/-- A directory is made where nothing stood, at the place that its path names. -/
theorem exists_of_makeDirectory (hok : t.makeDirectory p = .ok t') :
    ∃ directory segment slash, t.resolveParent p = .ok (directory, .name segment slash) ∧
      t.find? (directory ++ [String.ofList segment]) = none ∧
      t' = t.put (directory ++ [String.ofList segment]) .directory := by
  unfold Tree.makeDirectory at hok
  rcases hparent : t.resolveParent p with e | ⟨directory, ⟨segment, slash⟩ | _⟩
  · simp [hparent, bind, Except.bind] at hok
  · simp only [hparent, bind, Except.bind, throw, throwThe, MonadExceptOf.throw] at hok
    split_ifs at hok with _ hnone
    exact ⟨directory, segment, slash, rfl, Option.not_isSome_iff_eq_none.mp hnone,
      (Except.ok.inj hok).symm⟩
  · simp [hparent, bind, Except.bind, throw, throwThe, MonadExceptOf.throw] at hok

/-- A file is put at the place that its path names, and not over a directory. -/
theorem exists_of_place (hok : t.place p content = .ok t') :
    ∃ directory segment slash, t.resolveParent p = .ok (directory, .name segment slash) ∧
      t.hasDirectory (directory ++ [String.ofList segment]) = false ∧
      t' = t.put (directory ++ [String.ofList segment]) (.file content) := by
  unfold Tree.place at hok
  rcases hparent : t.resolveParent p with e | ⟨directory, ⟨segment, slash⟩ | _⟩
  · simp [hparent, bind, Except.bind] at hok
  · simp only [hparent, bind, Except.bind, throw, throwThe, MonadExceptOf.throw] at hok
    split_ifs at hok with _ _ hend
    exact ⟨directory, segment, slash, rfl, by simpa using hend, (Except.ok.inj hok).symm⟩
  · simp [hparent, bind, Except.bind, throw, throwThe, MonadExceptOf.throw] at hok

namespace WellFormed

/-- A directory that is made keeps a tree well-formed. -/
theorem makeDirectory (h : t.WellFormed) (hok : t.makeDirectory p = .ok t') : t'.WellFormed := by
  obtain ⟨directory, segment, slash, hparent, -, rfl⟩ := exists_of_makeDirectory hok
  obtain ⟨hdirectory, hname⟩ := spec_of_resolveParent hparent
  exact h.put hname hdirectory fun hne => absurd rfl hne

/-- A file that is put in place keeps a tree well-formed. -/
theorem place (h : t.WellFormed) (hok : t.place p content = .ok t') : t'.WellFormed := by
  obtain ⟨directory, segment, slash, hparent, hend, rfl⟩ := exists_of_place hok
  obtain ⟨hdirectory, hname⟩ := spec_of_resolveParent hparent
  exact h.put hname hdirectory fun _ => hend

/-- A directory that is made unless there is one keeps a tree well-formed. -/
theorem makeDirectoryOr (h : t.WellFormed) {ifMissing : Tree × Except SystemError Unit}
    (hmissing : ifMissing.1.WellFormed) : (t.makeDirectoryOr p ifMissing).1.WellFormed := by
  unfold Tree.makeDirectoryOr
  split
  · rename_i hmake
    exact h.makeDirectory hmake
  · exact hmissing
  · split_ifs
    · exact h
    · exact h

/-- Directories that are made keep a tree well-formed, also those made before a failure. -/
theorem makeDirectoriesWithin (h : t.WellFormed) (levels : Nat) (p : Path) :
    (Tree.makeDirectoriesWithin levels t p).1.WellFormed := by
  -- what is made above a missing directory is well-formed by induction, whether or not it suffices
  induction levels generalizing p with
  | zero => exact h
  | succ levels ih =>
    unfold Tree.makeDirectoriesWithin
    split_ifs
    · exact h
    · apply h.makeDirectoryOr
      split
      · exact h
      · rename_i above _
        have habove := ih above
        split <;> rename_i hmade <;> rw [hmade] at habove
        · exact habove
        · exact habove.makeDirectoryOr habove

theorem makeDirectories (h : t.WellFormed) (p : Path) : (t.makeDirectories p).1.WellFormed :=
  h.makeDirectoriesWithin _ p

end WellFormed

end Filewise.Tree
