import Filewise.Config
import Filewise.Proofs.Chain.Resolution
import Mathlib.Data.List.Nodup

/-!
# How the extensions of chains are written

An extension for which a chain is declared may be written with a dot in front. Set one by one, all
chains are stored without the dots in front of their extensions. Read from a configuration they are
stored as they are written, and a chain is then looked up with no dot and with one dot. So both
agree for every path as long as no extension that a file can have is written with two dots, and two
dots make a difference as soon as the chain does something.

## Main definitions

* `Target.withChains`: a target whose chains are set one by one.
* `Target.HasDistinctExtensions`: chains that are declared for different extensions.

## Main results

* `Target.chainFor?_withChains`, `Target.chainFor?_eq_some_iff`: the chains that are looked up.
* `Target.Applies.withChains`: the same entries apply if they are set one by one.
* `Target.resolve_withChains_iff`: when chains mean the same in both ways.
-/

namespace Filewise

namespace Path

variable {p : Path} {extension : String}

/-- The extension is written with two or more dots in front. -/
def HasTwoDots (extension : String) : Prop := ['.', '.'] <+: extension.toList

instance (extension : String) : Decidable (HasTwoDots extension) :=
  inferInstanceAs (Decidable (_ <+: _))

theorem toList_normalizeExtension (extension : String) :
    (normalizeExtension extension).toList = extension.toList.dropWhile (· == '.') :=
  String.toList_ofList

/-- No dot is left in front of an extension. -/
theorem head?_normalizeExtension (extension : String) :
    (normalizeExtension extension).toList.head? ≠ some '.' := by
  intro hdot
  have hkept := List.head?_dropWhile_not (· == '.') extension.toList
  rw [← toList_normalizeExtension, hdot] at hkept
  simp at hkept

/-- An extension is written with no dot, with one dot or with two dots in front. -/
theorem eq_or_hasTwoDots (extension : String) :
    extension = normalizeExtension extension ∨
      extension = "." ++ normalizeExtension extension ∨ HasTwoDots extension := by
  rw [← String.toList_inj, ← String.toList_inj, String.toList_append, toList_normalizeExtension]
  unfold HasTwoDots
  -- the first two characters decide
  rcases extension.toList with _ | ⟨c, rest⟩
  · exact Or.inl rfl
  · by_cases hc : c = '.'
    · subst hc
      rcases rest with _ | ⟨d, rest⟩
      · exact Or.inr (Or.inl rfl)
      · by_cases hd : d = '.'
        · subst hd
          exact Or.inr (Or.inr ⟨rest, rfl⟩)
        · refine Or.inr (Or.inl ?_)
          simp [hd]
    · refine Or.inl ?_
      simp [hc]

theorem normalizeExtension_ne_dot (key extension : String) :
    normalizeExtension key ≠ "." ++ extension := by
  intro heq
  apply head?_normalizeExtension key
  rw [heq, String.toList_append]
  rfl

theorem normalizeExtension_dot (extension : String) :
    normalizeExtension ("." ++ extension) = normalizeExtension extension := by
  rw [← String.toList_inj, toList_normalizeExtension, toList_normalizeExtension,
    String.toList_append]
  rfl

theorem slash_mem_normalizeExtension (h : '/' ∈ extension.toList) :
    '/' ∈ (normalizeExtension extension).toList := by
  rw [← List.takeWhile_append_dropWhile (p := (· == '.')) (l := extension.toList)] at h
  rw [toList_normalizeExtension]
  refine (List.mem_append.mp h).resolve_left fun hdots => ?_
  simpa using List.mem_takeWhile_imp hdots

theorem HasTwoDots.length_normalizeExtension_lt (h : HasTwoDots extension) :
    (normalizeExtension extension).length + 1 < extension.length := by
  obtain ⟨rest, hrest⟩ := h
  have hsuffix := List.dropWhile_suffix (l := rest) (· == '.')
  rw [← String.length_toList, ← String.length_toList, toList_normalizeExtension, ← hrest]
  have hlength := hsuffix.length_le
  simp
  omega

/-- What follows a dot at the start of an extension is an extension too, unless nothing follows. -/
theorem HasExtension.of_dot (h : p.HasExtension ("." ++ extension)) (hne : extension ≠ "") :
    p.HasExtension extension := by
  obtain ⟨-, name, before, hname, -, hbefore⟩ := h
  refine ⟨hne, name, before ++ ['.'], hname, by simp, ?_⟩
  rw [hbefore, String.toList_append, List.append_assoc]
  rfl

end Path

/-- In an accepted configuration, every chain is declared for some extension. -/
theorem BuildConfig.normalizeExtension_ne_empty {c : BuildConfig} {t : Target}
    (h : c.fault? = none) (ht : t ∈ c.targets) :
    ∀ key ∈ t.chains.keys, Path.normalizeExtension key ≠ "" := by
  have htargets : ∀ {seen targets}, targetFault? seen targets = none → t ∈ targets →
      ∀ key ∈ t.chains.keys, Path.normalizeExtension key ≠ "" := by
    intro seen targets hnone hmem
    induction targets generalizing seen with
    | nil => simp at hmem
    | cons t' rest ih =>
      unfold targetFault? at hnone
      split_ifs at hnone with _ _ hkeys
      rcases List.mem_cons.mp hmem with rfl | hmem
      · simpa using hkeys
      · exact ih hnone hmem
  cases hfault : targetFault? [] c.targets with
  | none => exact htargets hfault ht
  | some fault =>
    unfold fault? at h
    rw [hfault] at h
    split_ifs at h

namespace Target

variable {t : Target} {declared : List (String × List ChainEntry)} {p : Path}
  {matched : ChainMatch} {entries : List ChainEntry} {e : String}

/-- The target with other chains, set one by one. -/
def withChains (t : Target) (declared : List (String × List ChainEntry)) : Target :=
  declared.foldl (fun t chain => t.withChain chain.1 chain.2) { t with chains := [] }

/-- The chains of the target are declared for extensions, and for different ones if the dots in
front are left out. -/
structure HasDistinctExtensions (t : Target) : Prop where
  nonempty : ∀ key ∈ t.chains.keys, Path.normalizeExtension key ≠ ""
  distinct : (t.chains.keys.map Path.normalizeExtension).Nodup

instance (t : Target) : Decidable t.HasDistinctExtensions :=
  decidable_of_iff ((∀ key ∈ t.chains.keys, Path.normalizeExtension key ≠ "") ∧
    (t.chains.keys.map Path.normalizeExtension).Nodup)
    ⟨fun ⟨h, h'⟩ => ⟨h, h'⟩, fun h => ⟨h.1, h.2⟩⟩

/-! ### Chains that are set one by one -/

/-- Setting chains one by one stores them without the dots in front of their extensions, and changes
nothing else. -/
theorem withChains_eq (t : Target) (declared : List (String × List ChainEntry)) :
    t.withChains declared = { t with
      chains := Dict.ofList (declared.map fun chain =>
        (Path.normalizeExtension chain.1, chain.2)) } := by
  have hfold : ∀ chains : Dict (List ChainEntry),
      declared.foldl (fun t chain => t.withChain chain.1 chain.2) { t with chains } =
        { t with chains := chains.overlay (declared.map fun chain =>
          (Path.normalizeExtension chain.1, chain.2)) } := by
    induction declared with
    | nil => exact fun _ => rfl
    | cons chain rest ih => exact fun chains => ih _
  exact hfold []

/-- A chain that was set is stored for the extension it was declared for, however many dots were
written in front of it. -/
theorem find?_withChains (ht : t.HasDistinctExtensions) (hperm : declared.Perm t.chains)
    (extension : String) : (t.withChains declared).chains.find? extension = some entries ↔
      ∃ key, (key, entries) ∈ t.chains ∧ Path.normalizeExtension key = extension := by
  let stored : Dict (List ChainEntry) := declared.map fun chain =>
    (Path.normalizeExtension chain.1, chain.2)
  have hkeys : stored.keys = (declared.map Prod.fst).map Path.normalizeExtension := by
    rw [List.map_map]
    exact List.map_map
  -- no chain that was set overwrites another one
  have hnodup : stored.keys.Nodup := by
    rw [hkeys]
    exact ((hperm.map Prod.fst).map _).nodup_iff.mpr ht.distinct
  have hstored : (Dict.ofList stored).Perm stored := Dict.overlay_perm hnodup
  rw [withChains_eq, (Dict.ordered_ofList stored).find?_eq_some_iff, hstored.mem_iff, List.mem_map]
  constructor
  · rintro ⟨⟨key, entries'⟩, hmem, heq⟩
    obtain ⟨rfl, rfl⟩ := Prod.mk.inj heq
    exact ⟨key, hperm.mem_iff.mp hmem, rfl⟩
  · rintro ⟨key, hmem, rfl⟩
    exact ⟨(key, entries), hperm.mem_iff.mpr hmem, rfl⟩

/-- Such a chain is looked up as it is stored, since none is stored with a dot in front. -/
theorem chainFor?_withChains (ht : t.HasDistinctExtensions) (hperm : declared.Perm t.chains) :
    (t.withChains declared).chainFor? e = some entries ↔
      ∃ key, (key, entries) ∈ t.chains ∧ Path.normalizeExtension key = e := by
  rw [chainFor?, Option.or_eq_some_iff, find?_withChains ht hperm]
  refine or_iff_left fun hdot => ?_
  obtain ⟨key, -, hkey⟩ := (find?_withChains ht hperm ("." ++ e)).mp hdot.2
  exact Path.normalizeExtension_ne_dot key e hkey

/-- A chain as it is declared is looked up with no dot and with one dot in front of the extension.
At most one of them is declared. -/
theorem chainFor?_eq_some_iff (ht : t.HasDistinctExtensions) : t.chainFor? e = some entries ↔
    ∃ key, (key, entries) ∈ t.chains ∧ (key = e ∨ key = "." ++ e) := by
  have hnodup : t.chains.keys.Nodup := List.Nodup.of_map _ ht.distinct
  rw [chainFor?, Option.or_eq_some_iff, Dict.find?_eq_some_iff_of_nodup hnodup,
    Dict.find?_eq_some_iff_of_nodup hnodup]
  constructor
  · rintro (hmem | ⟨-, hmem⟩)
    · exact ⟨e, hmem, Or.inl rfl⟩
    · exact ⟨"." ++ e, hmem, Or.inr rfl⟩
  · rintro ⟨key, hmem, rfl | rfl⟩
    · exact Or.inl hmem
    · refine Or.inr ⟨?_, hmem⟩
      rw [Dict.find?_eq_none_iff]
      -- written with no dot and with one dot, an extension is the same without the dots
      intro hkey
      have hne : e ≠ "." ++ e := by
        intro heq
        have hlength := congrArg String.length heq
        simp at hlength
      refine hne (List.inj_on_of_nodup_map ht.distinct hkey ?_ ?_)
      · exact List.mem_map.mpr ⟨_, hmem, rfl⟩
      · exact (Path.normalizeExtension_dot e).symm

/-! ### The same entries -/

/-- No extension that a file can have is written with two dots in front. -/
def NoTwoDots (t : Target) : Prop :=
  ∀ key ∈ t.chains.keys, '/' ∉ key.toList → ¬Path.HasTwoDots key

instance (t : Target) : Decidable t.NoTwoDots :=
  inferInstanceAs (Decidable (∀ key ∈ t.chains.keys, _))

/-- Then an extension that a file can have is written with no dot or with one dot in front. -/
theorem NoTwoDots.eq_or_eq {key : String} (hdots : t.NoTwoDots) (hkey : key ∈ t.chains.keys)
    (hslash : '/' ∉ key.toList) :
    key = Path.normalizeExtension key ∨ key = "." ++ Path.normalizeExtension key := by
  rcases Path.eq_or_hasTwoDots key with hplain | hdot | htwo
  · exact Or.inl hplain
  · exact Or.inr hdot
  · exact absurd htwo (hdots key hkey hslash)

/-- A chain that was set for an extension of a file is looked up as it is declared. -/
theorem NoTwoDots.chainFor?_eq (hdots : t.NoTwoDots) (ht : t.HasDistinctExtensions)
    (hperm : declared.Perm t.chains) (he : p.HasExtension e)
    (h : (t.withChains declared).chainFor? e = some entries) : t.chainFor? e = some entries := by
  obtain ⟨key, hmem, rfl⟩ := (chainFor?_withChains ht hperm).mp h
  refine (chainFor?_eq_some_iff ht).mpr ⟨key, hmem, ?_⟩
  refine hdots.eq_or_eq (List.mem_map.mpr ⟨_, hmem, rfl⟩) fun hslash => he.slash_notMem ?_
  exact Path.slash_mem_normalizeExtension hslash

/-- A chain that is looked up as it is declared was set for the extension without a dot in front. -/
theorem NoTwoDots.exists_key (hdots : t.NoTwoDots) (ht : t.HasDistinctExtensions)
    (he : p.HasExtension e) (h : t.chainFor? e = some entries) :
    ∃ key, (key, entries) ∈ t.chains ∧
      (e = Path.normalizeExtension key ∨ e = "." ++ Path.normalizeExtension key) := by
  obtain ⟨key, hmem, hkey⟩ := (chainFor?_eq_some_iff ht).mp h
  have hkeys : key ∈ t.chains.keys := List.mem_map.mpr ⟨_, hmem, rfl⟩
  refine ⟨key, hmem, ?_⟩
  rcases hkey with rfl | rfl
  · exact hdots.eq_or_eq hkeys he.slash_notMem
  · -- another dot in front of the extension would be the second one
    have hslash : '/' ∉ ("." ++ e).toList := by
      rw [String.toList_append]
      simpa using he.slash_notMem
    rcases hdots.eq_or_eq hkeys hslash with heq | heq
    · exact absurd heq.symm (Path.normalizeExtension_ne_dot _ e)
    · exact Or.inl ((String.append_right_inj ".").mp heq)

/-- The entries that apply to a path still apply if all chains are set one by one. -/
theorem Applies.withChains (h : t.Applies p matched entries) (hdots : t.NoTwoDots)
    (ht : t.HasDistinctExtensions) (hperm : declared.Perm t.chains) :
    ∃ matched', (t.withChains declared).Applies p matched' entries := by
  cases h with
  | @extension e _ he hentries hlongest =>
    obtain ⟨key, hmem, hwritten⟩ := hdots.exists_key ht he hentries
    -- the file has the extension with and without the dot that is written in front of it
    have hextension : p.HasExtension (Path.normalizeExtension key) := by
      rcases hwritten with heq | heq
      · exact heq ▸ he
      · exact (heq ▸ he).of_dot (ht.nonempty key (List.mem_map.mpr ⟨_, hmem, rfl⟩))
    refine ⟨.extension (Path.normalizeExtension key), .extension hextension
      ((chainFor?_withChains ht hperm).mpr ⟨key, hmem, rfl⟩) fun other hother hsome => ?_⟩
    obtain ⟨entries', hentries'⟩ := Option.isSome_iff_exists.mp hsome
    have hle := hlongest other hother
      (Option.isSome_iff_exists.mpr ⟨_, hdots.chainFor?_eq ht hperm hother hentries'⟩)
    rcases hwritten with heq | heq
    · exact heq ▸ hle
    · -- only the extension with the dot in front is longer, and no chain was set for it
      have hne : other.length ≠ e.length := by
        intro hlength
        obtain ⟨key', -, hkey'⟩ := (chainFor?_withChains ht hperm).mp hentries'
        rw [hother.eq_of_length he hlength, heq] at hkey'
        exact Path.normalizeExtension_ne_dot key' _ hkey'
      have hlonger : e.length = 1 + (Path.normalizeExtension key).length := by
        rw [heq, String.length_append]
        rfl
      omega
  | default hnone =>
    have hdefault : (t.withChains declared).defaultChain = t.defaultChain := by
      rw [withChains_eq]
    refine ⟨.default, hdefault ▸ .default fun e he => ?_⟩
    rw [Option.eq_none_iff_forall_ne_some]
    intro entries hentries
    have hfound := hdots.chainFor?_eq ht hperm he hentries
    simp [hnone e he] at hfound

/-- The steps for entries that apply. -/
theorem Applies.steps_eq (h : t.Applies p matched entries) :
    (t.resolve p).steps = entries.map t.stepFor := by
  rw [h.resolve_eq]
  cases entries <;> rfl

/-! ### What two dots change -/

/-- A target with chains for the same extensions, of which only one does something. -/
def withOnly (t : Target) (key : String) : Target :=
  { t with
    chains := t.chains.map fun chain => (chain.1, if chain.1 = key then [.bare ""] else [])
    defaultChain := [] }

theorem keys_withOnly (t : Target) (key : String) :
    (t.withOnly key).chains.keys = t.chains.keys := by
  rw [withOnly, Dict.keys, List.map_map]
  rfl

theorem mem_withOnly_iff {key key' : String} : (key', entries) ∈ (t.withOnly key).chains ↔
    key' ∈ t.chains.keys ∧ entries = if key' = key then [.bare ""] else [] := by
  rw [withOnly, List.mem_map, Dict.keys, List.mem_map]
  constructor
  · rintro ⟨chain, hmem, heq⟩
    obtain ⟨rfl, rfl⟩ := Prod.mk.inj heq
    exact ⟨⟨chain, hmem, rfl⟩, rfl⟩
  · rintro ⟨⟨chain, hmem, rfl⟩, rfl⟩
    exact ⟨chain, hmem, rfl⟩

theorem HasDistinctExtensions.congr {other : Target} (ht : t.HasDistinctExtensions)
    (hkeys : other.chains.keys = t.chains.keys) : other.HasDistinctExtensions :=
  ⟨by rw [hkeys]; exact ht.nonempty, by rw [hkeys]; exact ht.distinct⟩

/-- A file whose longest extension is the one that a key stands for. -/
def fileFor (key : String) : Path := .ofNames ["a." ++ Path.normalizeExtension key]

theorem hasExtension_fileFor {key : String} (hslash : '/' ∉ key.toList) :
    (fileFor key).HasExtension e ↔ e ≠ "" ∧ ∃ before, before ≠ [] ∧
      'a' :: '.' :: (Path.normalizeExtension key).toList = before ++ '.' :: e.toList := by
  have htext : ("a." ++ Path.normalizeExtension key).toList =
      'a' :: '.' :: (Path.normalizeExtension key).toList := String.toList_append ..
  -- the text starts with a letter and has no slash in it, so it names a file
  have hname : Path.IsName ("a." ++ Path.normalizeExtension key) := by
    have hne : ∀ other : String, other.toList.head? ≠ some 'a' →
        "a." ++ Path.normalizeExtension key ≠ other := by
      rintro _ hother rfl
      rw [htext] at hother
      exact hother rfl
    refine ⟨hne "" (by decide), hne "." (by decide), hne ".." (by decide), ?_⟩
    rw [htext, Path.toList_normalizeExtension]
    simpa using fun hmem => hslash (List.dropWhile_subset _ hmem)
  have hcomponents : (fileFor key).components = [.name ("a." ++ Path.normalizeExtension key)] :=
    Path.components_ofNames (by simpa using hname)
  have hfile : (fileFor key).fileName? = some ("a." ++ Path.normalizeExtension key) :=
    Path.fileName?_of_components (hcomponents.trans (List.nil_append _).symm)
  rw [Path.HasExtension, hfile]
  refine and_congr_right fun _ => ⟨?_, ?_⟩
  · rintro ⟨_, before, hsome, hne, hbefore⟩
    obtain rfl := Option.some_inj.mp hsome
    exact ⟨before, hne, htext ▸ hbefore⟩
  · rintro ⟨before, hne, hbefore⟩
    exact ⟨_, before, rfl, hne, htext.trans hbefore⟩

/-- As it is declared, a chain with two dots in front of its extension is not found for a file with
this extension. Set for the extension, it is. -/
theorem steps_withOnly_ne {key : String} (ht : t.HasDistinctExtensions)
    (hkey : key ∈ t.chains.keys) (hslash : '/' ∉ key.toList) (hdots : Path.HasTwoDots key) :
    (((t.withOnly key).withChains (t.withOnly key).chains).resolve (fileFor key)).steps ≠
      ((t.withOnly key).resolve (fileFor key)).steps := by
  have hother : (t.withOnly key).HasDistinctExtensions := ht.congr (keys_withOnly t key)
  have hlongest : ∀ e, (fileFor key).HasExtension e →
      e.length ≤ (Path.normalizeExtension key).length := by
    intro e he
    obtain ⟨-, before, hne, hbefore⟩ := (hasExtension_fileFor hslash).mp he
    have hlength := congrArg List.length hbefore
    have hpos := List.length_pos_of_ne_nil hne
    rw [List.length_append] at hlength
    simp only [List.length_cons, String.length_toList] at hlength
    omega
  have hset : ((t.withOnly key).withChains (t.withOnly key).chains).Applies (fileFor key)
      (.extension (Path.normalizeExtension key)) [.bare ""] := by
    refine .extension ?_ ((chainFor?_withChains hother (.refl _)).mpr ⟨key, ?_, rfl⟩)
      fun e he _ => hlongest e he
    · exact (hasExtension_fileFor hslash).mpr ⟨ht.nonempty key hkey, ['a'], by simp, rfl⟩
    · exact mem_withOnly_iff.mpr ⟨hkey, (if_pos rfl).symm⟩
  have hdeclared : ∀ {matched entries}, (t.withOnly key).Applies (fileFor key) matched entries →
      entries = [] := by
    intro matched entries happlies
    cases happlies with
    | @extension e _ he hentries _ =>
      obtain ⟨key', hmem, hwritten⟩ := (chainFor?_eq_some_iff hother).mp hentries
      rw [(mem_withOnly_iff.mp hmem).2, if_neg]
      -- with two dots in front, the key is too long to be looked up
      rintro rfl
      have hle := hlongest e he
      have hlt := hdots.length_normalizeExtension_lt
      rcases hwritten with rfl | rfl
      · omega
      · rw [String.length_append, show ".".length = 1 from rfl] at hlt
        omega
    | default _ => rfl
  intro hsame
  rw [hset.steps_eq, (applies_entriesFor _ _).steps_eq, hdeclared (applies_entriesFor _ _)] at hsame
  exact List.cons_ne_nil _ _ hsame

/-- Chains mean the same whether they are stored as they are declared or set one by one, in any
order, exactly if no extension that a file can have is declared with two dots in front: then every
path gets the same steps whatever the chains are, and otherwise some chains and a path tell the
difference. -/
theorem resolve_withChains_iff (ht : t.HasDistinctExtensions) :
    (∀ other : Target, other.chains.keys = t.chains.keys →
      ∀ declared, declared.Perm other.chains → ∀ p,
        ((other.withChains declared).resolve p).steps = (other.resolve p).steps) ↔
      t.NoTwoDots := by
  constructor
  · -- chains of which only the one for this key does something tell the difference
    intro hsame key hkey hslash hdots
    exact steps_withOnly_ne ht hkey hslash hdots
      (hsame (t.withOnly key) (keys_withOnly t key) _ (.refl _) (fileFor key))
  · intro hdots other hkeys declared hperm p
    have hother : other.NoTwoDots := by
      unfold NoTwoDots
      rwa [hkeys]
    have happlies := applies_entriesFor other p
    obtain ⟨matched', happlies'⟩ := happlies.withChains hother (ht.congr hkeys) hperm
    have htransformers : (other.withChains declared).transformers = other.transformers := by
      rw [withChains_eq]
    rw [happlies.steps_eq, happlies'.steps_eq]
    exact List.map_congr_left fun entry _ => stepFor_congr (by rw [htransformers])

/-- The chains of `declarations` mean the same in both ways: one is declared with one dot. -/
theorem declarations_withChains :
    BuildConfig.fault? ⟨none, [declarations]⟩ = none ∧ declarations.HasDistinctExtensions ∧
    ∀ declared, declared.Perm declarations.chains → ∀ p,
      ((declarations.withChains declared).resolve p).steps = (declarations.resolve p).steps := by
  have hvalid : BuildConfig.fault? ⟨none, [declarations]⟩ = none := by decide +kernel
  have hdistinct : declarations.HasDistinctExtensions :=
    ⟨BuildConfig.normalizeExtension_ne_empty hvalid List.mem_cons_self, by decide +kernel⟩
  exact ⟨hvalid, hdistinct,
    (resolve_withChains_iff hdistinct).mpr (by decide +kernel) declarations rfl⟩

/-- A target with a chain for an extension that is written with two dots. -/
def twoDots : Target :=
  { Target.new "esm" ⟨"src"⟩ ⟨"dist"⟩ with chains := [("..ts", [.bare "define"])] }

/-- The configuration is accepted, but its chain is not found for a file with the extension. -/
theorem twoDots_resolve_ne : BuildConfig.fault? ⟨none, [twoDots]⟩ = none ∧
    twoDots.HasDistinctExtensions ∧
    ((twoDots.withChains twoDots.chains).resolve ⟨"a.ts"⟩).steps.map (·.transformer) =
      ["define"] ∧
    (twoDots.resolve ⟨"a.ts"⟩).steps.map (·.transformer) = [] := by
  decide +kernel

end Target

end Filewise
