import Filewise.Proofs.Path.Parent
import Filewise.Proofs.Tree.Walk

/-!
# Making directories

Making a directory and those above it either succeeds or is stopped by the first file
or the first name that is too long on the way. Whether it is stopped, and by what, can
be seen beforehand from the names and the files that are there; the directories that
are there do not matter. Nothing is changed but that directories may be made on the
way, where nothing stood.

## Main definitions

* `Tree.obstacle?`: what stops the making of directories along some names.
* `Tree.Grows`: nothing is changed but that directories were made on the way to a
  location.

## Main results

* `Tree.Closed.made_makeDirectories`: how the making of directories goes.
-/

namespace Filewise.Tree

variable {t t' t'' : Tree} {place l above names : Location} {name : String} {p q : Path}

/-! ### Growing trees -/

/-- Nothing is changed but that directories were made on the way to a location, where
nothing stood. -/
structure Grows (l : Location) (t t' : Tree) : Prop where
  closed : t.Closed → t'.Closed
  same_or_made : ∀ l', t'.find? l' = t.find? l' ∨
    t.find? l' = none ∧ t'.find? l' = some .directory ∧ l' <+: l

namespace Grows

theorem refl (l : Location) (t : Tree) : Grows l t t := ⟨id, fun _ => Or.inl rfl⟩

theorem trans (h : Grows l t t') (h' : Grows l t' t'') : Grows l t t'' := by
  refine ⟨h'.closed ∘ h.closed, fun l' => ?_⟩
  rcases h'.same_or_made l' with heq' | ⟨hnone', hmade', hl'⟩
  · rw [heq']
    exact h.same_or_made l'
  · rcases h.same_or_made l' with heq | ⟨hnone, hmade, -⟩
    · exact Or.inr ⟨heq ▸ hnone', hmade', hl'⟩
    · rw [hnone'] at hmade
      simp at hmade

theorem mono {l' : Location} (h : Grows l t t') (hl : l <+: l') : Grows l' t t' :=
  ⟨h.closed, fun k => (h.same_or_made k).imp_right fun ⟨hnone, hmade, hk⟩ =>
    ⟨hnone, hmade, hk.trans hl⟩⟩

/-- Directories stay. -/
theorem hasDirectory {k : Location} (h : Grows l t t') (hk : t.hasDirectory k = true) :
    t'.hasDirectory k = true := by
  rw [hasDirectory_iff] at hk ⊢
  rcases h.same_or_made k with heq | ⟨hnone, -, -⟩
  · rw [heq, hk]
  · rw [hk] at hnone
    simp at hnone

/-- A directory that is made where nothing stood. -/
theorem put (hnone : t.find? (place ++ [name]) = none) (hplace : t.hasDirectory place = true) :
    Grows (place ++ [name]) t (t.put (place ++ [name]) .directory) := by
  refine ⟨fun hclosed => hclosed.put _ hplace fun h => absurd rfl h, fun l' => ?_⟩
  rw [find?_put t (by simp)]
  split_ifs with heq
  · exact Or.inr ⟨heq ▸ hnone, rfl, heq ▸ List.prefix_rfl⟩
  · exact Or.inl rfl

end Grows

/-! ### Obstacles -/

/-- Whether a file stands at a location. -/
def hasFile (t : Tree) (l : Location) : Bool :=
  match t.find? l with
  | some (.file _) => true
  | _ => false

theorem hasFile_iff : t.hasFile l = true ↔ ∃ content, t.find? l = some (.file content) := by
  unfold hasFile
  split <;> simp_all

theorem hasFile_of_hasDirectory (h : t.hasDirectory l = true) : t.hasFile l = false := by
  rw [hasFile, hasDirectory_iff.mp h]

theorem hasFile_of_none (h : t.find? l = none) : t.hasFile l = false := by
  rw [hasFile, h]

/-- What stands somewhere is a directory or a file. -/
theorem hasFile_eq_not (h : (t.find? l).isSome = true) : t.hasFile l = !t.hasDirectory l := by
  obtain ⟨e, he⟩ := Option.isSome_iff_exists.mp h
  cases e <;> simp [hasFile, hasDirectory, he]

theorem Grows.hasFile (h : Grows l t t') (k : Location) : t'.hasFile k = t.hasFile k := by
  rcases h.same_or_made k with heq | ⟨hnone, hmade, -⟩
  · rw [Tree.hasFile, Tree.hasFile, heq]
  · rw [hasFile_of_none hnone, hasFile_of_hasDirectory (hasDirectory_iff.mpr hmade)]

/-- What stops the making of directories along some names, from a place on: the first file,
or the first name that is too long. -/
def obstacle? (t : Tree) : Location → List String → Option SystemError
  | place, [] => if t.hasFile place then some .exists else none
  | place, name :: rest =>
    if t.hasFile place then some .notDirectory
    else if isTooLong name.toList then some .nameTooLong
    else obstacle? t (place ++ [name]) rest

/-- What stops the making of directories depends on the files on the way only. -/
theorem obstacle?_congr (h : ∀ l, l <+: names → t.hasFile (place ++ l) = t'.hasFile (place ++ l)) :
    t.obstacle? place names = t'.obstacle? place names := by
  induction names generalizing place with
  | nil =>
    have hplace := h [] List.nil_prefix
    rw [List.append_nil] at hplace
    rw [obstacle?, obstacle?, hplace]
  | cons name rest ih =>
    have hplace := h [] List.nil_prefix
    rw [List.append_nil] at hplace
    have hrest : t.obstacle? (place ++ [name]) rest = t'.obstacle? (place ++ [name]) rest := by
      apply ih
      intro l hl
      rw [List.append_assoc]
      exact h _ ((List.prefix_append_right_inj [name]).mpr hl)
    rw [obstacle?, obstacle?, hplace, hrest]

/-- Unless a file stands at the end of some names, what stops the making of directories
further on is what stops it before, or else what stops it from there on. -/
theorem obstacle?_append (h : t.hasFile (place ++ names) = false) (rest : Location) :
    t.obstacle? place (names ++ rest) =
      (t.obstacle? place names).or (t.obstacle? (place ++ names) rest) := by
  induction names generalizing place with
  | nil =>
    rw [List.append_nil] at h
    rw [List.nil_append, obstacle?, h, List.append_nil]
    rfl
  | cons name names ih =>
    have hnames : place ++ [name] ++ names = place ++ name :: names := by simp
    rw [List.cons_append, obstacle?, obstacle?, ih (hnames ▸ h), hnames]
    split_ifs <;> rfl

/-- What stops the making of a directory inside one that is there. -/
theorem obstacle?_concat (hdirectory : t.hasDirectory above = true)
    (h : t.obstacle? [] above = none) (name : String) :
    t.obstacle? [] (above ++ [name]) =
      if isTooLong name.toList then some .nameTooLong
      else if t.hasFile (above ++ [name]) then some .exists else none := by
  have hfile := hasFile_of_hasDirectory hdirectory
  rw [obstacle?_append hfile, h, List.nil_append, obstacle?, hfile, obstacle?]
  rfl

/-! ### Going down -/

/-- Goes down from a place along some names. -/
def descend (t : Tree) : Location → List String → Except SystemError Location
  | place, [] => if t.hasDirectory place then .ok place else .error .notDirectory
  | place, name :: rest =>
    if t.hasDirectory place then
      if isTooLong name.toList then .error .nameTooLong
      else if (t.find? (place ++ [name])).isSome then descend t (place ++ [name]) rest
      else .error .notFound
    else .error .notDirectory

/-- Whoever follows a path without double dots to a directory goes down along its names. -/
theorem walk_eq_descend {segments : List (List Char)}
    (h : segments.filterMap Path.innerComponent? = names.map .name) :
    (t.walk place segments >>= fun l =>
      if t.hasDirectory l then .ok l else .error .notDirectory) = t.descend place names := by
  induction segments generalizing place names with
  | nil =>
    cases names with
    | nil => rfl
    | cons name names => simp at h
  | cons segment rest ih =>
    unfold walk
    -- a text that stands for nothing is a step on the walk, but none on the way down
    rcases innerComponent?_cases segment with ⟨hs, hc⟩ | ⟨-, hc⟩ | ⟨⟨hs, hup⟩, hc⟩
    · rw [List.filterMap_cons_none hc] at h
      rw [if_pos hs]
      split_ifs with hplace
      · exact ih h
      · cases names <;> simp [descend, hplace, bind, Except.bind]
    · rw [List.filterMap_cons_some hc] at h
      cases names <;> simp at h
    · rw [List.filterMap_cons_some hc] at h
      cases names with
      | nil => simp at h
      | cons name names =>
        rw [List.map_cons] at h
        obtain ⟨hname, hnames⟩ := List.cons.inj h
        obtain rfl := Component.name.inj hname
        simp only [if_neg hs, if_neg hup, descend, String.toList_ofList]
        split_ifs
        · rfl
        · exact ih hnames
        · rfl
        · rfl

theorem descend_append (names rest : Location) :
    t.descend place (names ++ rest) = t.descend place names >>= fun l => t.descend l rest := by
  induction names generalizing place with
  | nil =>
    rw [List.nil_append, descend]
    split_ifs with hplace
    · rfl
    · cases rest <;> simp [descend, hplace, bind, Except.bind]
  | cons name names ih =>
    rw [List.cons_append, descend, descend]
    split_ifs
    · rfl
    · exact ih
    · rfl
    · rfl

/-- Going down succeeds, or something is missing on the way, or what stops it also stops
the making of directories further on. -/
theorem Closed.descend_cases (h : t.Closed) (place names : Location)
    (hplace : (t.find? place).isSome = true) :
    t.descend place names = .ok (place ++ names) ∧ t.hasDirectory (place ++ names) = true ∧
        t.obstacle? place names = none ∨
      t.descend place names = .error .notFound ∧ t.find? (place ++ names) = none ∨
      ∃ e, e ≠ .notFound ∧ t.descend place names = .error e ∧
        ∀ name rest, t.obstacle? place (names ++ name :: rest) = some e := by
  induction names generalizing place with
  | nil =>
    rw [List.append_nil, descend, obstacle?, hasFile_eq_not hplace]
    cases hdirectory : t.hasDirectory place with
    | true => exact Or.inl ⟨rfl, rfl, rfl⟩
    | false =>
      refine Or.inr (Or.inr ⟨.notDirectory, by decide, rfl, fun name rest => ?_⟩)
      rw [List.nil_append, obstacle?, hasFile_eq_not hplace, hdirectory]
      rfl
  | cons name names ih =>
    have hnames : place ++ [name] ++ names = place ++ name :: names := by simp
    rw [descend, obstacle?, hasFile_eq_not hplace]
    cases hdirectory : t.hasDirectory place with
    | false =>
      refine Or.inr (Or.inr ⟨.notDirectory, by decide, rfl, fun name rest => ?_⟩)
      rw [List.cons_append, obstacle?, hasFile_eq_not hplace, hdirectory]
      rfl
    | true =>
      -- a directory stands here, so that the next name decides
      by_cases hlong : isTooLong name.toList = true
      · refine Or.inr (Or.inr ⟨.nameTooLong, by decide, by simp [hlong], fun name' rest => ?_⟩)
        rw [List.cons_append, obstacle?, hasFile_eq_not hplace, hdirectory]
        simp [hlong]
      · by_cases hnext : (t.find? (place ++ [name])).isSome = true
        · have := ih (place ++ [name]) hnext
          rw [hnames] at this
          simpa [hlong, hnext, obstacle?, hasFile_eq_not hplace, hdirectory] using this
        · refine Or.inr (Or.inl ⟨by simp [hlong, hnext], ?_⟩)
          rw [← Option.not_isSome_iff_eq_none]
          intro hsome
          refine hnext ?_
          -- what stands at the end would stand in a directory that is missing
          by_cases hlast : names = []
          · rwa [hlast] at hsome
          · rw [← hnames] at hsome
            rw [hasDirectory_iff.mp (h.hasDirectory_of_append hlast hsome)]
            rfl

/-- Where something is missing on the way down, nothing stands at the end. -/
theorem Closed.find?_of_descend (h : t.Closed) (hmissing : t.descend [] names = .error .notFound) :
    t.find? names = none := by
  rcases h.descend_cases [] names rfl with ⟨hok, -⟩ | ⟨-, hnone⟩ | ⟨e, he, herror, -⟩
  · simp [hmissing] at hok
  · exact hnone
  · rw [hmissing] at herror
    exact absurd (Except.error.inj herror).symm he

/-! ### Making one directory -/

/-- What comes of making directories, by what stops it. -/
def ofObstacle? : Option SystemError → Except SystemError Unit
  | none => .ok ()
  | some e => .error e

/-- What stands between the slashes of a tidy path that names something. -/
theorem segments_of_isTidy (htidy : p.IsTidy)
    (hp : p.components = .root :: (above ++ [name]).map .name) :
    ∃ before, p.segments = [] :: before ++ [name.toList] ∧ Path.IsName name ∧
      before.filterMap Path.innerComponent? = above.map .name := by
  obtain ⟨rest, hne, hsegments, hnames⟩ := segments_of_components hp
  -- the root has no name, so the path ends in one as it is written
  rcases htidy with hroot | ⟨before, last, hwritten, hlast⟩
  · obtain rfl : rest = [[]] := (List.cons.inj (hsegments.symm.trans hroot)).2
    simp [Path.innerComponent?] at hnames
  · obtain ⟨init, second, rfl⟩ := (List.eq_nil_or_concat' rest).resolve_left hne
    rw [hsegments, ← List.cons_append] at hwritten
    obtain ⟨rfl, hsecond⟩ := List.append_inj' hwritten rfl
    obtain rfl := List.cons.inj hsecond |>.1
    rw [List.filterMap_append, List.filterMap_cons_some (Path.innerComponent?_of_isName hlast),
      List.filterMap_nil, List.map_append] at hnames
    obtain ⟨hinit, hname⟩ := List.append_inj' hnames rfl
    obtain rfl := Component.name.inj (List.cons.inj hname).1
    exact ⟨init, hsegments, hlast, hinit⟩

theorem splitLast_of_isName (before : List (List Char)) (h : Path.IsName name) :
    splitLast (before ++ [name.toList]) = (before, .name name.toList false) := by
  have hempty : name.toList.isEmpty = false := by simpa using h.1
  have hdot : name.toList ≠ ['.'] := fun hdot => h.2.1 (String.toList_inj.mp hdot)
  have hup : name.toList ≠ ['.', '.'] := fun hup => h.2.2.1 (String.toList_inj.mp hup)
  simp [splitLast, hempty, hdot, hup]

/-- What a path says before its end leads to the directory that its names spell out. -/
theorem resolveParent_eq {before : List (List Char)} {ending : Ending}
    (habs : p.isAbsolute = true) (hrefused : refusal? p = none)
    (hsplit : splitLast p.segments = ([] :: before, ending))
    (hnames : before.filterMap Path.innerComponent? = names.map .name) (t : Tree) :
    t.resolveParent p = t.descend [] names >>= fun directory => .ok (directory, ending) := by
  rw [← walk_eq_descend hnames]
  simp only [resolveParent, hrefused, hsplit, start, if_pos habs, walk, hasDirectory_nil, if_true,
    true_or]
  cases t.walk [] before with
  | error e => rfl
  | ok directory =>
    simp only [bind, Except.bind]
    split_ifs <;> rfl

/-- A directory is made below the one that going down leads to. -/
theorem makeDirectory_eq (htidy : p.IsTidy)
    (hp : p.components = .root :: (above ++ [name]).map .name) (hrefused : refusal? p = none)
    (t : Tree) :
    t.makeDirectory p = t.descend [] above >>= fun directory =>
      if isTooLong name.toList then .error .nameTooLong
      else if (t.find? (directory ++ [name])).isSome then .error .exists
      else .ok (t.put (directory ++ [name]) .directory) := by
  have habs : p.isAbsolute = true := Path.isAbsolute_of_components hp
  obtain ⟨before, hsegments, hname, hnames⟩ := segments_of_isTidy htidy hp
  have hsplit : splitLast p.segments = ([] :: before, .name name.toList false) := by
    rw [hsegments, splitLast_of_isName _ hname]
  rw [makeDirectory, resolveParent_eq habs hrefused hsplit hnames]
  cases t.descend [] above with
  | error e => rfl
  | ok directory =>
    simp only [bind, Except.bind, String.ofList_toList]
    split_ifs <;> rfl

/-- A path leads to a directory if going down leads to it. -/
theorem isDirectory_eq (hp : p.components = .root :: names.map .name)
    (hrefused : refusal? p = none) (t : Tree) :
    t.isDirectory p = true ↔ t.descend [] names = .ok names := by
  have habs : p.isAbsolute = true := Path.isAbsolute_of_components hp
  obtain ⟨rest, -, hsegments, hnames⟩ := segments_of_components hp
  rw [← walk_eq_descend hnames, isDirectory, resolve_of_isAbsolute habs hsegments, hrefused]
  cases hwalk : t.walk [] rest with
  | error e => simp [bind, Except.bind]
  | ok l =>
    obtain rfl : l = names := by
      rw [eq_foldl_of_walk hwalk, hnames, Component.foldl_follow_names, List.nil_append]
    simp [bind, Except.bind]

/-! ### Making directories -/

/-- The making of directories along some names went as the obstacles say. -/
structure Made (names : Location) (t : Tree) (made : Tree × Except SystemError Unit) : Prop where
  grows : Grows names t made.1
  outcome : made.2 = ofObstacle? (t.obstacle? [] names)
  hasDirectory : made.2 = .ok () → made.1.hasDirectory names = true

/-- Nothing was made because something stands in the way. -/
theorem Made.of_error {e : SystemError} (h : t.obstacle? [] names = some e) :
    Made names t (t, .error e) :=
  ⟨Grows.refl _ t, by rw [h, ofObstacle?], fun hok => by simp at hok⟩

/-- Nothing had to be made. -/
theorem Made.of_hasDirectory (h : t.hasDirectory names = true)
    (hobstacle : t.obstacle? [] names = none) : Made names t (t, .ok ()) :=
  ⟨Grows.refl _ t, by rw [hobstacle, ofObstacle?], fun _ => h⟩

theorem makeDirectoryOr_of_error {e : SystemError} (hmake : t.makeDirectory p = .error e)
    (he : e ≠ .notFound) (ifMissing : Tree × Except SystemError Unit) :
    t.makeDirectoryOr p ifMissing = (t, if t.isDirectory p then .ok () else .error e) := by
  rw [makeDirectoryOr, hmake]
  cases e <;> first | exact absurd rfl he | (dsimp only; split_ifs <;> rfl)

/-- Making a directory goes as the obstacles say, unless the one above it is missing. -/
theorem Closed.made_makeDirectoryOr (hclosed : t.Closed) (htidy : p.IsTidy)
    (hp : p.components = .root :: (above ++ [name]).map .name) (hrefused : refusal? p = none)
    (ifMissing : Tree × Except SystemError Unit)
    (habove : t.descend [] above ≠ .error .notFound) :
    Made (above ++ [name]) t (t.makeDirectoryOr p ifMissing) := by
  have hmake := makeDirectory_eq htidy hp hrefused t
  have hisDirectory := isDirectory_eq hp hrefused t
  rw [descend_append] at hisDirectory
  rcases hclosed.descend_cases [] above rfl with
    ⟨hdescend, hdirectory, hobstacle⟩ | ⟨hdescend, -⟩ | ⟨e, he, hdescend, hobstacle⟩
  · rw [List.nil_append] at hdescend hdirectory
    have hhere := obstacle?_concat hdirectory hobstacle name
    simp only [hdescend, bind, Except.bind] at hmake hisDirectory
    simp only [descend, hdirectory, if_true] at hisDirectory
    -- the place is there, so that only the name and what has it already can be in the way
    by_cases hlong : isTooLong name.toList = true
    · simp only [hlong, if_true] at hmake hhere hisDirectory
      rw [makeDirectoryOr_of_error hmake (by decide), if_neg (by simp [hisDirectory])]
      exact Made.of_error hhere
    · simp only [if_neg hlong] at hmake hhere hisDirectory
      cases hend : t.find? (above ++ [name]) with
      | none =>
        simp only [hend, hasFile_of_none hend, Option.isSome_none, Bool.false_eq_true, if_false]
          at hmake hhere
        rw [makeDirectoryOr, hmake]
        refine ⟨Grows.put hend hdirectory, by rw [hhere]; rfl, fun _ => ?_⟩
        rw [hasDirectory_iff, find?_put t (by simp), if_pos rfl]
      | some entry =>
        simp only [hend, Option.isSome_some, if_true] at hmake hisDirectory
        rw [makeDirectoryOr_of_error hmake (by decide)]
        cases entry with
        | directory =>
          have hhas := hasDirectory_iff.mpr hend
          rw [if_pos (by simp [hisDirectory, hhas])]
          exact Made.of_hasDirectory hhas (by simp [hhere, hasFile_of_hasDirectory hhas])
        | file content =>
          have hhas : t.hasDirectory (above ++ [name]) = false := by simp [hasDirectory, hend]
          rw [if_neg (by simp [hisDirectory, hhas])]
          exact Made.of_error (by simp [hhere, hasFile, hend])
  · exact absurd hdescend habove
  · simp only [hdescend, bind, Except.bind] at hmake hisDirectory
    rw [makeDirectoryOr_of_error hmake he, if_neg (by simp [hisDirectory])]
    exact Made.of_error (hobstacle name [])

/-- Making a directory whose place is missing is left to whoever asked. -/
theorem makeDirectoryOr_of_notFound (htidy : p.IsTidy)
    (hp : p.components = .root :: (above ++ [name]).map .name) (hrefused : refusal? p = none)
    (ifMissing : Tree × Except SystemError Unit) (h : t.descend [] above = .error .notFound) :
    t.makeDirectoryOr p ifMissing = ifMissing := by
  have hmake := makeDirectory_eq htidy hp hrefused t
  simp only [h, bind, Except.bind] at hmake
  rw [makeDirectoryOr, hmake]

theorem refusal?_of_prefix (hp : refusal? p = none) (hq : q.text ≠ "")
    (h : q.text.toList <+: p.text.toList) : refusal? q = none := by
  obtain ⟨more, hmore⟩ := h
  have htext : p.text = q.text ++ String.ofList more := by
    rw [← String.toList_inj, String.toList_append, String.toList_ofList, hmore]
  unfold refusal? at hp ⊢
  rw [htext] at hp
  split_ifs at hp with hempty hnul hlong
  rw [if_neg (by simpa using hq), if_neg, if_neg]
  · rw [String.utf8ByteSize_append] at hlong
    omega
  · intro hnul'
    refine hnul ?_
    rw [String.toList_append, List.contains_iff_mem] at *
    exact List.mem_append_left _ hnul'

theorem eq_of_ofObstacle?_eq_error {obstacle : Option SystemError} {e : SystemError}
    (h : ofObstacle? obstacle = .error e) : obstacle = some e := by
  cases obstacle with
  | none => simp [ofObstacle?] at h
  | some e' => rw [Except.error.inj h]

/-- A tidy path to the root is a slash. -/
theorem segments_of_isTidy_root (htidy : p.IsTidy) (hp : p.components = [.root]) :
    p.segments = [[], []] := by
  refine htidy.resolve_right ?_
  rintro ⟨before, name, hwritten, hname⟩
  obtain ⟨rest, -, hsegments, hnil⟩ := segments_of_components hp
  have hmem : name.toList ∈ [] :: rest := by simp [← hsegments, hwritten]
  rcases List.mem_cons.mp hmem with hempty | hmem
  · exact hname.1 (by simpa using hempty)
  · have hnone := List.filterMap_eq_nil_iff.mp hnil _ hmem
    rw [Path.innerComponent?_of_isName hname] at hnone
    simp at hnone

/-- What is made after the directories above were made is made from the start. -/
theorem Made.trans {made : Tree × Except SystemError Unit} (h : Grows names t t')
    (h' : Made names t' made) : Made names t made :=
  ⟨h.trans h'.grows, by rw [h'.outcome, obstacle?_congr fun l _ => h.hasFile _], h'.hasDirectory⟩

/-- What stops the making of the directories above a missing one also stops its making. -/
theorem Made.concat_of_error {e : SystemError} (h : Made above t (t', .error e))
    (hnone : t.find? above = none) (name : String) : Made (above ++ [name]) t (t', .error e) := by
  have hobstacle : t.obstacle? [] (above ++ [name]) = some e := by
    rw [obstacle?_append (hasFile_of_none hnone), eq_of_ofObstacle?_eq_error h.outcome.symm,
      Option.some_or]
  exact ⟨h.grows.mono (List.prefix_append above [name]), by rw [hobstacle, ofObstacle?],
    fun hok => by simp at hok⟩

/-- The root is there already. -/
theorem made_root (htidy : p.IsTidy) (hp : p.components = [.root]) (hrefused : refusal? p = none)
    (levels : Nat) : Made [] t (makeDirectoriesWithin (levels + 1) t p) := by
  have habs : p.isAbsolute = true := Path.isAbsolute_of_components hp
  have hsegments := segments_of_isTidy_root htidy hp
  have hmake : t.makeDirectory p = .error .exists := by
    simp only [makeDirectory, resolveParent, hrefused, hsegments, start, if_pos habs]
    rfl
  have hroot : p.components = .root :: [].map .name := hp
  have hisDirectory : t.isDirectory p = true := (isDirectory_eq hroot hrefused t).mpr rfl
  rw [makeDirectoriesWithin, if_neg (by simpa using Path.text_ne_empty_of_isAbsolute habs),
    makeDirectoryOr_of_error hmake (by decide), if_pos hisDirectory]
  exact Made.of_hasDirectory (hasDirectory_nil t) rfl

/-- Making directories goes as the obstacles say. -/
theorem Closed.made_makeDirectoriesWithin {levels : Nat} (hclosed : t.Closed) (htidy : p.IsTidy)
    (hp : p.components = .root :: names.map .name) (hrefused : refusal? p = none)
    (hlevels : names.length < levels) : Made names t (makeDirectoriesWithin levels t p) := by
  -- levels are gone up one by one, and each name that is left out is one level
  induction names using List.reverseRecOn generalizing p levels with
  | nil =>
    obtain ⟨levels, rfl⟩ : ∃ n, levels = n + 1 := ⟨levels - 1, by omega⟩
    exact made_root htidy hp hrefused levels
  | append_singleton above name ih =>
    obtain ⟨levels, rfl⟩ : ∃ n, levels = n + 1 := ⟨levels - 1, by omega⟩
    have habs : p.isAbsolute = true := Path.isAbsolute_of_components hp
    rw [makeDirectoriesWithin, if_neg (by simpa using Path.text_ne_empty_of_isAbsolute habs)]
    -- only if the place is missing are the directories above made first
    by_cases hmissing : t.descend [] above = .error .notFound
    · rw [makeDirectoryOr_of_notFound htidy hp hrefused _ hmissing]
      have hsplit : p.components = (.root :: above.map .name) ++ [.name name] := by
        rw [hp, List.map_append, List.cons_append, List.map_singleton]
      obtain ⟨q, hparent, hq, hpre⟩ := Path.exists_parent? hsplit
      have hqabs : q.isAbsolute = true := Path.isAbsolute_of_components hq
      have hqtidy := Path.isTidy_of_parent? habs hsplit (by simp) hparent
      have hqrefused :=
        refusal?_of_prefix hrefused (Path.text_ne_empty_of_isAbsolute hqabs) hpre
      have hmade := ih hqtidy hq hqrefused
        (show above.length < levels by simpa using hlevels)
      rw [hparent]
      dsimp only
      rcases hrest : makeDirectoriesWithin levels t q with ⟨t', outcome⟩
      rw [hrest] at hmade
      cases outcome with
      | error e => exact hmade.concat_of_error (hclosed.find?_of_descend hmissing) name
      | ok u =>
        -- now the directory above is there, so that this one is made in it
        have hdirectory : t'.hasDirectory above = true := hmade.hasDirectory rfl
        have hclosed' := hmade.grows.closed hclosed
        have hgrows := hmade.grows.mono (List.prefix_append above [name])
        refine Made.trans hgrows (hclosed'.made_makeDirectoryOr htidy hp hrefused _ ?_)
        intro hmissing'
        have hnone := hclosed'.find?_of_descend hmissing'
        rw [hasDirectory_iff.mp hdirectory] at hnone
        simp at hnone
    · exact hclosed.made_makeDirectoryOr htidy hp hrefused _ hmissing

/-- Making directories goes as the obstacles say. -/
theorem Closed.made_makeDirectories (hclosed : t.Closed) (htidy : p.IsTidy)
    (hp : p.components = .root :: names.map .name) (hrefused : refusal? p = none) :
    Made names t (t.makeDirectories p) := by
  refine hclosed.made_makeDirectoriesWithin htidy hp hrefused ?_
  obtain ⟨rest, -, hsegments, hnames⟩ := segments_of_components hp
  -- there are enough levels, as each name takes a text of its own
  have hlength := List.length_filterMap_le Path.innerComponent? rest
  rw [hnames, List.length_map] at hlength
  rw [hsegments, List.length_cons]
  omega

/-- Nothing is made at a path that is not followed at all. -/
theorem makeDirectories_of_refusal? {e : SystemError} (htext : p.text ≠ "")
    (hrefused : refusal? p = some e) : t.makeDirectories p = (t, .error e) := by
  have hmake : t.makeDirectory p = .error e := by
    simp only [makeDirectory, resolveParent, hrefused]
    rfl
  have he : e ≠ .notFound := by
    rintro rfl
    unfold refusal? at hrefused
    split_ifs at hrefused <;> simp_all
  have hisDirectory : t.isDirectory p = false := by simp [isDirectory, resolve, hrefused]
  rw [makeDirectories, makeDirectoriesWithin, if_neg (by simpa using htext),
    makeDirectoryOr_of_error hmake he, hisDirectory]
  rfl

end Filewise.Tree
