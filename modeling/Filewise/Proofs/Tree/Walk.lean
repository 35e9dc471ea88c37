import Filewise.Proofs.Path.Components
import Filewise.Tree.Access
import Mathlib.Data.List.Induction

/-!
# Following paths in file trees

There are no links, so a path that can be followed leads to the location that its
components spell out. Without double dots these are just the names in the path. What
following it gives depends on nothing but what kinds of things stand on the way.

## Main definitions

* `Path.location`: the location that a path spells out.
* `Tree.Closed`: everything stands in a directory.
* `Tree.WellFormed`: a closed tree in which each location is listed once.
* `Tree.SameKind`: the same kind of thing stands at a location of two trees.

## Main results

* `Tree.eq_location_of_resolve`: a path leads to the location that it spells out.
* `Tree.Closed.hasDirectory_of_prefix`: above what stands somewhere are directories.
* `Tree.read_congr`: what is read depends on what stands on the way.
-/

namespace Filewise

/-- Where a component leads from a place. -/
def Component.follow (place : Location) : Component → Location
  | .root => []
  | .here => place
  | .up => place.dropLast
  | .name s => place ++ [s]

/-- The location that a path spells out, seen from the root. -/
def Path.location (p : Path) : Location := p.components.foldl Component.follow []

theorem Component.foldl_follow_names (place names : Location) :
    (names.map Component.name).foldl follow place = place ++ names := by
  induction names generalizing place with
  | nil => rw [List.map_nil, List.foldl_nil, List.append_nil]
  | cons name names ih =>
    rw [List.map_cons, List.foldl_cons, ih, follow, List.append_assoc, List.singleton_append]

/-- Without dots, the location of a path is made of the names in it. -/
theorem Path.location_eq {p : Path} {names : Location}
    (h : p.components = .root :: names.map .name) : p.location = names := by
  rw [location, h, List.foldl_cons, Component.foldl_follow_names]
  rfl

namespace Tree

variable {t t' : Tree} {place l : Location}

/-! ### Where paths lead -/

theorem hasDirectory_iff : t.hasDirectory l = true ↔ t.find? l = some .directory := by
  rw [hasDirectory, beq_iff_eq]

theorem hasDirectory_nil (t : Tree) : t.hasDirectory [] = true := by
  rw [hasDirectory_iff, find?_nil]

/-- A text between slashes that is followed stands for nothing, for a double dot or for a
name. -/
theorem innerComponent?_cases (segment : List Char) :
    (segment = [] ∨ segment = ['.']) ∧ Path.innerComponent? segment = none ∨
    (¬(segment = [] ∨ segment = ['.']) ∧ segment = ['.', '.']) ∧
      Path.innerComponent? segment = some .up ∨
    (¬(segment = [] ∨ segment = ['.']) ∧ segment ≠ ['.', '.']) ∧
      Path.innerComponent? segment = some (.name (String.ofList segment)) := by
  unfold Path.innerComponent?
  split_ifs with hempty hup
  · exact Or.inl ⟨hempty, rfl⟩
  · exact Or.inr (Or.inl ⟨⟨hempty, hup⟩, rfl⟩)
  · exact Or.inr (Or.inr ⟨⟨hempty, hup⟩, rfl⟩)

/-- Following texts between slashes leads where their components lead. -/
theorem eq_foldl_of_walk {segments : List (List Char)} (h : t.walk place segments = .ok l) :
    l = (segments.filterMap Path.innerComponent?).foldl Component.follow place := by
  induction segments generalizing place with
  | nil => exact (Except.ok.inj h).symm
  | cons segment rest ih =>
    unfold walk at h
    rcases innerComponent?_cases segment with ⟨hs, hc⟩ | ⟨⟨hs, hup⟩, hc⟩ | ⟨⟨hs, hup⟩, hc⟩
    · rw [List.filterMap_cons_none hc]
      split_ifs at h
      exact ih h
    · rw [List.filterMap_cons_some hc, List.foldl_cons, Component.follow]
      split_ifs at h
      exact ih h
    · rw [List.filterMap_cons_some hc, List.foldl_cons, Component.follow]
      dsimp only at h
      split_ifs at h
      exact ih h

/-- What stands between the slashes of an absolute path. -/
theorem segments_of_isAbsolute {p : Path} (h : p.isAbsolute = true) :
    ∃ rest, rest ≠ [] ∧ p.segments = [] :: rest ∧
      p.components = .root :: rest.filterMap Path.innerComponent? := by
  obtain ⟨rest, hne, hsegments⟩ := Path.isAbsolute_iff_head.mp h
  refine ⟨rest, hne, hsegments, ?_⟩
  rw [Path.components_of_segments hsegments, h]
  rfl

/-- What stands between the slashes of a path, by what it has below the root. -/
theorem segments_of_components {p : Path} {below : List Component}
    (h : p.components = .root :: below) :
    ∃ rest, rest ≠ [] ∧ p.segments = [] :: rest ∧
      rest.filterMap Path.innerComponent? = below := by
  obtain ⟨rest, hne, hsegments, hcomponents⟩ :=
    segments_of_isAbsolute (Path.isAbsolute_of_components h)
  exact ⟨rest, hne, hsegments, (List.cons.inj (hcomponents.symm.trans h)).2⟩

/-- Looking up an absolute path begins at the root. -/
theorem resolve_of_isAbsolute {p : Path} {rest : List (List Char)} (h : p.isAbsolute = true)
    (hrest : p.segments = [] :: rest) (t : Tree) :
    t.resolve p = match refusal? p with
      | some e => .error e
      | none => t.walk [] rest := by
  unfold resolve
  cases refusal? p with
  | some e => rfl
  | none =>
    change t.walk (t.start p) p.segments = t.walk [] rest
    rw [start, if_pos h, hrest, walk, if_pos (hasDirectory_nil t), if_pos (Or.inl rfl)]

/-- A path leads to the location that it spells out. -/
theorem eq_location_of_resolve {p : Path} (hp : p.isAbsolute = true) (h : t.resolve p = .ok l) :
    l = p.location := by
  obtain ⟨rest, -, hsegments, hcomponents⟩ := segments_of_isAbsolute hp
  rw [resolve_of_isAbsolute hp hsegments] at h
  rw [Path.location, hcomponents]
  cases hrefused : refusal? p with
  | some e =>
    rw [hrefused] at h
    simp at h
  | none =>
    rw [hrefused] at h
    exact eq_foldl_of_walk h

/-- A path without dots that leads to a directory leads to where its names lead. -/
theorem hasDirectory_of_isDirectory {p : Path} {names : Location}
    (hp : p.components = .root :: names.map .name) (h : t.isDirectory p = true) :
    t.hasDirectory names = true := by
  unfold isDirectory at h
  split at h
  · rename_i l hl
    rwa [eq_location_of_resolve (Path.isAbsolute_of_components hp) hl, Path.location_eq hp] at h
  · simp at h

/-! ### Everything stands in a directory -/

/-- Everything stands in a directory. -/
def Closed (t : Tree) : Prop :=
  ∀ directory name, (t.find? (directory ++ [name])).isSome = true → t.hasDirectory directory = true

/-- A closed tree in which each location is listed once, by its names. -/
structure WellFormed (t : Tree) : Prop where
  nodup : (t.entries.map Prod.fst).Nodup
  named : ∀ entry ∈ t.entries, entry.1 ≠ [] ∧ ∀ name ∈ entry.1, Path.IsName name
  closed : ∀ entry ∈ t.entries, t.hasDirectory entry.1.dropLast = true

instance (t : Tree) : Decidable t.WellFormed :=
  decidable_of_iff ((t.entries.map Prod.fst).Nodup ∧
    (∀ entry ∈ t.entries, entry.1 ≠ [] ∧ ∀ name ∈ entry.1, Path.IsName name) ∧
    ∀ entry ∈ t.entries, t.hasDirectory entry.1.dropLast = true)
    ⟨fun h => ⟨h.1, h.2.1, h.2.2⟩, fun h => ⟨h.nodup, h.named, h.closed⟩⟩

theorem mem_of_lookup {entries : List (Location × Entry)} {e : Entry}
    (h : lookup l entries = some e) : (l, e) ∈ entries := by
  induction entries with
  | nil => simp [lookup] at h
  | cons entry rest ih =>
    obtain ⟨l', e'⟩ := entry
    unfold lookup at h
    split_ifs at h with heq
    · rw [heq, Option.some_inj.mp h]
      exact List.mem_cons_self
    · exact List.mem_cons_of_mem _ (ih h)

theorem lookup_eq_some_iff {entries : List (Location × Entry)} {e : Entry}
    (h : (entries.map Prod.fst).Nodup) : lookup l entries = some e ↔ (l, e) ∈ entries := by
  refine ⟨mem_of_lookup, fun hmem => ?_⟩
  induction entries with
  | nil => exact absurd hmem List.not_mem_nil
  | cons entry rest ih =>
    obtain ⟨l', e'⟩ := entry
    obtain ⟨hnot, hrest⟩ := List.nodup_cons.mp h
    unfold lookup
    rcases List.mem_cons.mp hmem with heq | hmem
    · obtain ⟨rfl, rfl⟩ := Prod.mk.inj heq
      rw [if_pos rfl]
    · have hne : l' ≠ l := by
        rintro rfl
        exact hnot (List.mem_map.mpr ⟨_, hmem, rfl⟩)
      rw [if_neg hne, ih hrest hmem]

/-- What is listed in a well-formed tree stands there. -/
theorem WellFormed.find?_eq_some (h : t.WellFormed) {e : Entry} (hmem : (l, e) ∈ t.entries) :
    t.find? l = some e := by
  rw [find?, if_neg (h.named _ hmem).1, (lookup_eq_some_iff h.nodup).mpr hmem]

/-- What stands in a well-formed tree stands there by its names. -/
theorem WellFormed.isName (h : t.WellFormed) (hsome : (t.find? l).isSome = true) :
    ∀ s ∈ l, Path.IsName s := by
  intro s hs
  obtain ⟨e, he⟩ := Option.isSome_iff_exists.mp hsome
  rw [find?, if_neg (List.ne_nil_of_mem hs)] at he
  exact (h.named _ (mem_of_lookup he)).2 s hs

theorem WellFormed.toClosed (h : t.WellFormed) : t.Closed := by
  intro directory name hsome
  obtain ⟨e, he⟩ := Option.isSome_iff_exists.mp hsome
  rw [find?, if_neg (by simp)] at he
  have := h.closed _ (mem_of_lookup he)
  rwa [List.dropLast_concat] at this

/-- Directories stay when something is put where no directory is. -/
theorem hasDirectory_put {directory : Location} (e : Entry) (hl : l ≠ [])
    (hnone : t.hasDirectory l = false) (hdirectory : t.hasDirectory directory = true) :
    (t.put l e).hasDirectory directory = true := by
  have hne : directory ≠ l := by
    rintro rfl
    rw [hdirectory] at hnone
    simp at hnone
  rw [hasDirectory_iff] at hdirectory ⊢
  rw [find?_put t hl, if_neg hne, hdirectory]

namespace Closed

/-- Above what stands somewhere are directories. -/
theorem hasDirectory_of_append (h : t.Closed) {directory : Location} :
    ∀ {names : Location}, names ≠ [] → (t.find? (directory ++ names)).isSome = true →
      t.hasDirectory directory = true := by
  intro names
  -- from the end upwards, as each thing vouches for the one above it
  induction names using List.reverseRecOn with
  | nil => exact fun hne => absurd rfl hne
  | append_singleton names name ih =>
    intro _ hsome
    rw [← List.append_assoc] at hsome
    have hparent := h _ name hsome
    by_cases hnames : names = []
    · rwa [hnames, List.append_nil] at hparent
    · exact ih hnames (by rw [hasDirectory_iff.mp hparent]; rfl)

/-- Above what stands somewhere are directories. -/
theorem hasDirectory_of_prefix (h : t.Closed) {directory : Location}
    (hsome : (t.find? l).isSome = true) (hpre : directory <+: l) (hne : directory ≠ l) :
    t.hasDirectory directory = true := by
  obtain ⟨names, rfl⟩ := hpre
  have hnames : names ≠ [] := by
    rintro rfl
    exact hne (List.append_nil _).symm
  exact h.hasDirectory_of_append hnames hsome

/-- Above a directory are directories. -/
theorem hasDirectory_above (h : t.Closed) {directory : Location} (hl : t.hasDirectory l = true)
    (hpre : directory <+: l) : t.hasDirectory directory = true := by
  by_cases hne : directory = l
  · rwa [hne]
  · refine h.hasDirectory_of_prefix ?_ hpre hne
    rw [hasDirectory_iff.mp hl]
    rfl

/-- A closed tree stays closed when something is put into one of its directories, in place
of anything but a directory. -/
theorem put (h : t.Closed) {directory : Location} {name : String} (e : Entry)
    (hdirectory : t.hasDirectory directory = true)
    (hold : e ≠ .directory → t.hasDirectory (directory ++ [name]) = false) :
    (t.put (directory ++ [name]) e).Closed := by
  have hne : directory ++ [name] ≠ [] := by simp
  intro directory' name' hsome
  rw [find?_put t hne] at hsome
  rw [hasDirectory_iff, find?_put t hne]
  have hbefore : t.hasDirectory directory' = true := by
    split_ifs at hsome with heq
    · obtain ⟨rfl, -⟩ := List.append_inj' heq rfl
      exact hdirectory
    · exact h _ _ hsome
  -- nothing stands below a place where something else than a directory is put
  split_ifs with heq
  · rw [heq] at hbefore
    by_contra hfile
    rw [hold fun he => hfile (congrArg some he)] at hbefore
    simp at hbefore
  · exact hasDirectory_iff.mp hbefore

end Closed

/-! ### What matters on the way -/

/-- The same kind of thing stands at a location of two trees. -/
def SameKind (t t' : Tree) (l : Location) : Prop :=
  (t.find? l).isSome = (t'.find? l).isSome ∧ t.hasDirectory l = t'.hasDirectory l

theorem SameKind.of_eq (h : t.find? l = t'.find? l) : SameKind t t' l := by
  rw [SameKind, hasDirectory, hasDirectory, h]
  exact ⟨rfl, rfl⟩

theorem SameKind.of_hasDirectory (h : t.hasDirectory l = true) (h' : t'.hasDirectory l = true) :
    SameKind t t' l :=
  SameKind.of_eq ((hasDirectory_iff.mp h).trans (hasDirectory_iff.mp h').symm)

/-- Following names gives the same in trees where the same kinds of things stand on the
way. -/
theorem walk_congr {segments : List (List Char)} {names : Location}
    (hnames : segments.filterMap Path.innerComponent? = names.map .name)
    (h : ∀ l, l <+: names → SameKind t t' (place ++ l)) :
    t.walk place segments = t'.walk place segments := by
  -- induction on the texts, as some of them stand for nothing
  induction segments generalizing place names with
  | nil => rfl
  | cons segment rest ih =>
    have hplace := h [] List.nil_prefix
    rw [List.append_nil] at hplace
    unfold walk
    rcases innerComponent?_cases segment with ⟨hs, hc⟩ | ⟨-, hc⟩ | ⟨⟨hs, hup⟩, hc⟩
    · rw [List.filterMap_cons_none hc] at hnames
      rw [if_pos hs, if_pos hs, hplace.2, ih hnames h]
    · rw [List.filterMap_cons_some hc] at hnames
      cases names <;> simp at hnames
    · rw [List.filterMap_cons_some hc] at hnames
      cases names with
      | nil => simp at hnames
      | cons name names =>
        rw [List.map_cons] at hnames
        obtain ⟨hname, hnames⟩ := List.cons.inj hnames
        have hnext := h [name] (List.prefix_append [name] names)
        have hrest : t.walk (place ++ [name]) rest = t'.walk (place ++ [name]) rest := by
          apply ih hnames
          intro l hl
          rw [List.append_assoc]
          exact h _ ((List.prefix_append_right_inj [name]).mpr hl)
        simp only [if_neg hs, if_neg hup, Component.name.inj hname, hplace.2, hnext.1, hrest]

/-- Where a path without dots leads depends on the kinds of things that stand on the way. -/
theorem resolve_congr {p : Path} {names : Location}
    (hp : p.components = .root :: names.map .name) (h : ∀ l, l <+: names → SameKind t t' l) :
    t.resolve p = t'.resolve p := by
  have habs : p.isAbsolute = true := Path.isAbsolute_of_components hp
  obtain ⟨rest, -, hsegments, hnames⟩ := segments_of_components hp
  rw [resolve_of_isAbsolute habs hsegments, resolve_of_isAbsolute habs hsegments,
    walk_congr hnames fun l hl => by simpa using h l hl]

/-- What is read at a path without dots depends on what stands on the way and at its end. -/
theorem read_congr {p : Path} {names : Location} (hp : p.components = .root :: names.map .name)
    (h : ∀ l, l <+: names → SameKind t t' l) (hend : t.find? names = t'.find? names) :
    t.read p = t'.read p := by
  unfold read
  rw [resolve_congr hp h]
  cases hok : t'.resolve p with
  | error e => rfl
  | ok l =>
    obtain rfl : l = names := by
      rw [eq_location_of_resolve (Path.isAbsolute_of_components hp) hok, Path.location_eq hp]
    simp only [bind, Except.bind, hend]

end Tree

end Filewise
