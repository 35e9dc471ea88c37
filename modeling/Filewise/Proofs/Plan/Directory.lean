import Filewise.Proofs.Plan.OutputPath

/-!
# The directory of an output path

An output path is meant to mirror the path of its source: it ends in another name, in the same
directory. A transformer may replace an extension by any text though, also by one with slashes in
it, and where it drops an extension, a dot or two dots may be all that is left of the name. So a
path stays in its directory as long as each transformer leaves a name, and one that does not moves
it out of there.

## Main definitions

* `Path.IsBeside`: a path that ends in a name and has the same path above it as another one.
* `Path.KeepsName`: a text before an extension that makes a name with the new extension.
* `OutputPath.RenamesInPlace`: each transformer leaves a name.
* `Transformer.HasPlainRemaps`: a transformer that leaves a name of every name.

## Main results

* `Path.exists_components_renamed_iff`: which texts make a name with a new extension.
* `OutputPath.isBeside_afterTransformer_iff`: what one transformer does to the directory.
* `OutputPath.ofSteps_mirrors_iff`: when an output path mirrors the path of its source.
* `OutputPath.forall_isBeside_iff`: which transformers never move a file.
-/

namespace Filewise

namespace Path

variable {p q : Path} {above : List Component} {base old new name : String}

/-! ### Paths beside one another -/

/-- The path ends in a name, and the path above it is the one above the other path. -/
def IsBeside (q p : Path) : Prop :=
  q.parent?.map components = p.parent?.map components ∧ q.fileName?.isSome = true

instance (q p : Path) : Decidable (q.IsBeside p) := inferInstanceAs (Decidable (_ ∧ _))

/-- A path that is made of names ends in the last one of them. -/
theorem components_eq_of_names {names : List String} (h : p.components = names.map .name)
    (hne : names ≠ []) :
    p.components = names.dropLast.map .name ++ [.name (names.getLast hne)] := by
  rw [h, ← List.map_singleton, ← List.map_append, List.dropLast_append_getLast hne]

/-- A path that ends in a name is beside itself. -/
theorem isBeside_self (h : p.components = above ++ [.name name]) : p.IsBeside p :=
  ⟨rfl, by rw [fileName?_of_components h, Option.isSome_some]⟩

/-- Beside a path are those that differ from it in the name at the end. -/
theorem isBeside_iff (h : p.components = above ++ [.name name]) :
    q.IsBeside p ↔ ∃ name, q.components = above ++ [.name name] := by
  obtain ⟨r, hr, habove, -⟩ := exists_parent? h
  rw [IsBeside, hr, Option.map_some, habove]
  constructor
  · rintro ⟨hparent, hname⟩
    obtain ⟨name', hname'⟩ := Option.isSome_iff_exists.mp hname
    obtain ⟨init, hinit⟩ := components_of_fileName? hname'
    obtain ⟨r', hr', habove', -⟩ := exists_parent? hinit
    rw [hr', Option.map_some, habove'] at hparent
    exact ⟨name', by rw [hinit, Option.some_inj.mp hparent]⟩
  · rintro ⟨name', hname'⟩
    obtain ⟨r', hr', habove', -⟩ := exists_parent? hname'
    rw [hr', Option.map_some, habove', fileName?_of_components hname']
    exact ⟨rfl, rfl⟩

/-! ### Names with another extension -/

/-- A text that follows a name and is still the end of it: behind its first slash there are only
slashes, and dots between them. -/
def EndsName (new : String) : Prop :=
  ∀ segment ∈ (segments ⟨new⟩).tail, isEmptySegment segment = true

instance (new : String) : Decidable (EndsName new) :=
  inferInstanceAs (Decidable (∀ segment ∈ (segments ⟨new⟩).tail, isEmptySegment segment = true))

/-- What stands before an extension makes a name with the new extension, or on its own if the
extension is dropped. -/
def KeepsName (base new : String) : Prop :=
  (new = "" → base ≠ "." ∧ base ≠ "..") ∧
    (base = "." → isAbsolute ⟨new⟩ = false) ∧ EndsName new

instance (base new : String) : Decidable (KeepsName base new) :=
  inferInstanceAs (Decidable (_ ∧ _ ∧ _))

/-- A new extension that makes a name with whatever stands before the old one. -/
def IsPlainExtension (new : String) : Prop :=
  new ≠ "" ∧ isAbsolute ⟨new⟩ = false ∧ EndsName new

theorem IsPlainExtension.keepsName (h : IsPlainExtension new) (base : String) :
    KeepsName base new :=
  ⟨fun hempty => absurd hempty h.1, fun _ => h.2.1, h.2.2⟩

/-- A dot before the extension asks for as much as any other text does. -/
theorem isPlainExtension_of_keepsName_dot (h : KeepsName "." new) : IsPlainExtension new :=
  ⟨fun hempty => (h.1 hempty).1 rfl, h.2.1 rfl, h.2.2⟩

/-- The name with the new extension. -/
def renamed (base new : String) : String := if new.isEmpty then base else base ++ "." ++ new

/-- A relative path stands for a single name if the text before the first slash does and nothing
else stands for anything. -/
theorem exists_components_eq_iff {first : List Char} {rest : List (List Char)}
    (h : p.segments = first :: rest) (hne : first ≠ []) :
    (∃ name, p.components = [.name name]) ↔
      first ≠ ['.'] ∧ first ≠ ['.', '.'] ∧ ∀ segment ∈ rest, isEmptySegment segment = true := by
  have hrelative : p.isAbsolute = false := isAbsolute_eq_false_of_segments h hne
  have hrest : (∀ segment ∈ rest, isEmptySegment segment = true) ↔
      rest.filterMap innerComponent? = [] := by
    simp only [List.filterMap_eq_nil_iff, innerComponent?_eq_none_iff]
  rw [components_of_segments h, hrelative, leadingComponent?_false, hrest, innerComponent?]
  by_cases hdot : first = ['.']
  · simp [hdot]
  · by_cases hup : first = ['.', '.']
    · simp [hup]
    · simp [hne, hdot, hup]

/-- A text starts with a slash if nothing stands before its first one. -/
theorem eq_nil_iff_isAbsolute {first : List Char} {rest : List (List Char)} (hne : new ≠ "")
    (h : segments ⟨new⟩ = first :: rest) : first = [] ↔ isAbsolute ⟨new⟩ = true := by
  rw [isAbsolute_iff_head]
  constructor
  · rintro rfl
    refine ⟨rest, ?_, h⟩
    rintro rfl
    have htext := toList_text_eq ⟨new⟩
    rw [h] at htext
    exact hne (String.toList_inj.mp htext)
  · rintro ⟨rest', -, hrest'⟩
    exact (List.cons.inj (h.symm.trans hrest')).1

/-- What stands before an extension makes a name under just these conditions. -/
theorem exists_components_renamed_iff (hne : base ≠ "") (hslash : '/' ∉ base.toList) :
    (∃ name, (Path.mk (renamed base new)).components = [.name name]) ↔ KeepsName base new := by
  have hlist : ∀ other : String, base.toList = other.toList ↔ base = other :=
    fun _ => String.toList_inj
  have hbase : base.toList ≠ [] := fun hnil => hne ((hlist "").mp hnil)
  have hdot : base.toList = ['.'] ↔ base = "." := hlist "."
  have hup : base.toList = ['.', '.'] ↔ base = ".." := hlist ".."
  unfold renamed KeepsName
  by_cases hnew : new = ""
  · subst hnew
    have hsegments : segments ⟨base⟩ = [base.toList] := by
      simpa using segments_of_notMem hslash
    have hempty : EndsName "" ∧ isAbsolute ⟨""⟩ = false := by decide
    rw [if_pos (by decide), exists_components_eq_iff hsegments hbase, ne_eq, ne_eq, hdot, hup]
    simp [hempty]
  · obtain ⟨first, rest, hrest⟩ := (Path.mk new).exists_segments_eq
    have hsegments : segments ⟨base ++ "." ++ new⟩ = (base.toList ++ '.' :: first) :: rest := by
      simpa [hrest] using segments_of_extension hslash new
    -- only a dot in front of a slash makes two dots
    have hdots : base.toList ++ '.' :: first = ['.', '.'] ↔
        base = "." ∧ isAbsolute ⟨new⟩ = true := by
      rw [← eq_nil_iff_isAbsolute hnew hrest, ← hdot]
      obtain ⟨c, more, hmore⟩ := List.exists_cons_of_ne_nil hbase
      rw [hmore]
      cases more <;> simp
    have hlone : base.toList ++ '.' :: first ≠ ['.'] := by
      intro heq
      have hlength := congrArg List.length heq
      have hpos := List.length_pos_of_ne_nil hbase
      simp at hlength
      omega
    have hend : EndsName new ↔ ∀ segment ∈ rest, isEmptySegment segment = true := by
      rw [EndsName, hrest, List.tail_cons]
    rw [if_neg (by simpa using hnew), exists_components_eq_iff hsegments (by simp), ne_eq, ne_eq,
      hdots, hend]
    simp [hnew, hlone]

/-! ### Replaced extensions -/

/-- Beside two paths of the same directory are the same paths. -/
theorem IsBeside.congr {r : Path} (h : p.IsBeside r) : q.IsBeside p ↔ q.IsBeside r := by
  rw [IsBeside, IsBeside, h.1]

/-- With another extension, a path stays in its directory exactly if what stands before the
extension makes a name with the new one. -/
theorem isBeside_replaceExtension_iff (hold : p.HasExtension old)
    (hbase : p.fileName?.bind (baseName? · old) = some base) :
    (p.replaceExtension old new).IsBeside p ↔ KeepsName base new := by
  obtain ⟨text, hne, hslash, htext⟩ := hold.exists_base
  obtain rfl : String.ofList text = base := Option.some_inj.mp (htext.symm.trans hbase)
  obtain ⟨name, hname, -⟩ := Option.bind_eq_some_iff.mp hbase
  obtain ⟨above, habove⟩ := components_of_fileName? hname
  have houtput : IsOutput ⟨renamed (String.ofList text) new⟩ := isOutput_of_base hne hslash new
  have hreplaced : p.replaceExtension old new =
      p.withFileName (renamed (String.ofList text) new) := by
    rw [replaceExtension, hbase]
    rfl
  -- only the new name is left to be looked at, whatever stands above it
  rw [isBeside_iff habove, hreplaced, components_withFileName habove houtput.relative,
    ← exists_components_renamed_iff (by simpa using hne) (by simpa using hslash)]
  refine exists_congr fun name' => ?_
  split_ifs with hnil
  · rw [hnil, List.nil_append]
  · rw [List.append_cancel_left_eq, houtput.filter_here]
    -- behind a directory, a lone dot is no name either
    split_ifs with hdot
    · simp [hdot]
    · rfl

end Path

/-- Whatever extension of a file the transformer replaces, the new one makes a name. -/
def Transformer.HasPlainRemaps (t : Transformer) : Prop :=
  ∀ old new, t.remap? old = some new → old ≠ "" → '/' ∉ old.toList → Path.IsPlainExtension new

namespace OutputPath

open Filewise.Path

variable {source : Path} {o : OutputPath} {t : Transformer} {steps : List PlannedStep}

/-- What stands before the extension that a transformer replaces makes a name with the new one. -/
def RenamesAt (t : Transformer) (p : Path) : Prop :=
  ∀ remap ∈ remapped? t p, ∀ base ∈ p.fileName?.bind (baseName? · remap.1), KeepsName base remap.2

instance (t : Transformer) (p : Path) : Decidable (RenamesAt t p) :=
  inferInstanceAs (Decidable (∀ remap ∈ remapped? t p, _))

/-- Each transformer leaves a name of what the ones before it left. -/
def RenamesInPlace (source : Path) (steps : List PlannedStep) : Prop :=
  ∀ i, (h : i < steps.length) → RenamesAt steps[i].transformer (ofSteps source (steps.take i)).path

instance (source : Path) (steps : List PlannedStep) : Decidable (RenamesInPlace source steps) :=
  inferInstanceAs (Decidable (∀ i, (h : i < steps.length) → _))

/-- A transformer keeps a path in its directory exactly if it leaves a name. -/
theorem isBeside_afterTransformer_iff (h : o.path.IsBeside source) :
    (o.afterTransformer t).path.IsBeside source ↔ RenamesAt t o.path := by
  unfold afterTransformer RenamesAt
  cases hremap : remapped? t o.path with
  | none => simpa using h
  | some remap =>
    obtain ⟨old, new⟩ := remap
    have hold := (replaces_of_remapped? hremap).hasExtension
    obtain ⟨text, -, -, hbase⟩ := hold.exists_base
    have hnames : (∀ remap ∈ some (old, new),
        ∀ base ∈ o.path.fileName?.bind (baseName? · remap.1), KeepsName base remap.2) ↔
        KeepsName (String.ofList text) new := by
      simp [hbase]
    rw [hnames, ← h.congr]
    exact isBeside_replaceExtension_iff hold hbase

/-- All transformers keep a path in its directory exactly if each of them leaves a name. -/
theorem isBeside_take_iff (h : source.IsBeside source) :
    (∀ n, (ofSteps source (steps.take n)).path.IsBeside source) ↔ RenamesInPlace source steps := by
  have hstep : ∀ n, (hn : n < steps.length) → ofSteps source (steps.take (n + 1)) =
      (ofSteps source (steps.take n)).afterTransformer steps[n].transformer := by
    intro n hn
    rw [← ofSteps_concat, List.take_append_getElem hn]
  constructor
  · intro hbeside i hi
    rw [← isBeside_afterTransformer_iff (hbeside i), ← hstep i hi]
    exact hbeside (i + 1)
  · intro hrenames n
    induction n with
    | zero => exact h
    | succ n ih =>
      by_cases hn : n < steps.length
      · rw [hstep n hn, isBeside_afterTransformer_iff ih]
        exact hrenames n hn
      · -- no step is left
        rw [List.take_of_length_le (by omega)] at ih ⊢
        exact ih

/-- All transformers keep a file in its directory exactly if each of them leaves a name. Then the
output path is that of the source with another name at its end, so under every output root it has
the directories of the source. -/
theorem ofSteps_mirrors_iff {names : List String} (hsource : source.components = names.map .name)
    (hne : names ≠ []) (steps : List PlannedStep) :
    ((∀ n, (ofSteps source (steps.take n)).path.IsBeside source) ↔ RenamesInPlace source steps) ∧
    (RenamesInPlace source steps → ∃ name, IsName name ∧ ∀ root : Path,
      (root.join (ofSteps source steps).path).components =
        root.components ++ (names.dropLast ++ [name]).map .name) := by
  have hlast := components_eq_of_names hsource hne
  have htake : (∀ n, (ofSteps source (steps.take n)).path.IsBeside source) ↔
      RenamesInPlace source steps := isBeside_take_iff (isBeside_self hlast)
  refine ⟨htake, fun hrenames => ?_⟩
  have hbeside := htake.mpr hrenames steps.length
  rw [List.take_length, isBeside_iff hlast] at hbeside
  obtain ⟨name, hcomponents⟩ := hbeside
  have hmap : (ofSteps source steps).path.components = (names.dropLast ++ [name]).map .name := by
    rw [hcomponents, List.map_append, List.map_singleton]
  exact ⟨name, isName_of_mem_components (p := (ofSteps source steps).path) (by simp [hmap]),
    components_join_of_names hmap⟩

/-- A transformer that keeps texts and replaces one extension. -/
def replacing (old new : String) : Transformer :=
  (Transformer.new "rename" fun _ => .ok fun text => .ok text).withExtensionRemap old new

/-- Two steps, the second of which drops the extension that the first one makes. -/
def twoRenames : List PlannedStep := [⟨replacing "ts" "mts", []⟩, ⟨replacing ".d.mts" "", []⟩]

theorem twoRenames_mirror :
    (Path.mk "lib/a.d.ts").components = ["lib", "a.d.ts"].map .name ∧
    RenamesInPlace ⟨"lib/a.d.ts"⟩ twoRenames ∧
    (∀ n, (ofSteps ⟨"lib/a.d.ts"⟩ (twoRenames.take n)).path.IsBeside ⟨"lib/a.d.ts"⟩) ∧
    ∃ name, IsName name ∧ ∀ root : Path,
      (root.join (ofSteps ⟨"lib/a.d.ts"⟩ twoRenames).path).components =
        root.components ++ ["lib", name].map .name := by
  have hsource : (Path.mk "lib/a.d.ts").components = ["lib", "a.d.ts"].map .name := by
    decide +kernel
  have hrenames : RenamesInPlace ⟨"lib/a.d.ts"⟩ twoRenames := by decide +kernel
  obtain ⟨hiff, hmirrors⟩ := ofSteps_mirrors_iff hsource (by simp) twoRenames
  exact ⟨hsource, hrenames, hiff.mpr hrenames, hmirrors hrenames⟩

/-- A file is moved out of its directory by a single transformer. -/
def IsMovedBy (names : List String) (t : Transformer) : Prop :=
  (∀ s ∈ names, IsName s) ∧ ¬(ofSteps (ofNames names) [⟨t, []⟩]).path.IsBeside (ofNames names)

instance (names : List String) (t : Transformer) : Decidable (IsMovedBy names t) :=
  inferInstanceAs (Decidable (_ ∧ _))

/-- A way out of the directory in the new extension leads out of it. So does an extension that is
dropped, if dots are all that stands before it. -/
theorem replacing_moves :
    IsMovedBy ["lib", "a.ts"] (replacing "ts" "/../../a.js") ∧
    (ofSteps ⟨"lib/a.ts"⟩ [⟨replacing "ts" "/../../a.js", []⟩]).path = ⟨"lib/a./../../a.js"⟩ ∧
    IsMovedBy ["lib", "..ts"] (replacing "ts" "") ∧
    (ofSteps ⟨"lib/..ts"⟩ [⟨replacing "ts" "", []⟩]).path = ⟨"lib/."⟩ ∧
    IsMovedBy ["lib", "...ts"] (replacing "ts" "") ∧
    (ofSteps ⟨"lib/...ts"⟩ [⟨replacing "ts" "", []⟩]).path = ⟨"lib/.."⟩ := by
  decide +kernel

/-! ### Transformers that never move a file -/

/-- Two dots before an extension make a name with it. -/
theorem components_dots {old : String} (hne : old ≠ "") (hslash : '/' ∉ old.toList) :
    (ofNames [".." ++ old]).components = [.name (".." ++ old)] := by
  have hlist : (".." ++ old).toList = '.' :: '.' :: old.toList := String.toList_append ..
  have hlength : 2 < (".." ++ old).length := by
    have hpos : 0 < old.toList.length := List.length_pos_of_ne_nil (by simpa using hne)
    rw [← String.length_toList, hlist]
    simpa using hpos
  have hother : ∀ other : String, other.length ≤ 2 → ".." ++ old ≠ other := by
    rintro other hle rfl
    omega
  have hname : IsName (".." ++ old) :=
    ⟨hother "" (by decide), hother "." (by decide), hother ".." (by decide), by simpa [hlist]⟩
  have hnames : ∀ s ∈ [".." ++ old], IsName s := by simpa using hname
  exact components_ofNames hnames

theorem fileName?_dots {old : String} (hne : old ≠ "") (hslash : '/' ∉ old.toList) :
    (ofNames [".." ++ old]).fileName? = some (".." ++ old) := by
  rw [fileName?, components_dots hne hslash]
  rfl

/-- It is the longest extension of this name. -/
theorem remapped?_dots {old new : String} (h : t.remap? old = some new) (hne : old ≠ "")
    (hslash : '/' ∉ old.toList) : remapped? t (ofNames [".." ++ old]) = some (old, new) := by
  have hlist : (".." ++ old).toList = '.' :: '.' :: old.toList := String.toList_append ..
  rw [remapped?, extensionCandidates, fileName?_dots hne hslash]
  simp [nameExtensions, hlist, withoutLeadingDot, afterDots, hne, h]

/-- Some transformers never move a file out of its directory, in whatever order they are used,
exactly if each of them makes names of all new extensions. -/
theorem forall_isBeside_iff (transformers : List Transformer) :
    (∀ source : Path, ∀ names ≠ [], source.components = names.map .name →
      ∀ steps : List PlannedStep, (∀ s ∈ steps, s.transformer ∈ transformers) →
        (ofSteps source steps).path.IsBeside source) ↔
      ∀ t ∈ transformers, t.HasPlainRemaps := by
  constructor
  · intro hbeside t ht old new hremap hne hslash
    have hcomponents := components_dots hne hslash
    have hself : (ofNames [".." ++ old]).IsBeside (ofNames [".." ++ old]) :=
      ⟨rfl, by rw [fileName?_dots hne hslash, Option.isSome_some]⟩
    have hstays := hbeside (ofNames [".." ++ old]) [".." ++ old] (by simp) hcomponents [⟨t, []⟩]
      (by simpa using ht)
    -- the output path is that after the only transformer
    have hrenames : RenamesAt t (ofNames [".." ++ old]) :=
      (isBeside_afterTransformer_iff (o := ⟨ofNames [".." ++ old], none⟩) hself).mp hstays
    -- and a dot stands before the extension
    have hbase : baseName? (".." ++ old) old = some (String.ofList ['.']) :=
      baseName?_eq (String.toList_append ..)
    have hdot := hrenames (old, new) (remapped?_dots hremap hne hslash) "."
    rw [fileName?_dots hne hslash] at hdot
    exact isPlainExtension_of_keepsName_dot (hdot hbase)
  · intro hplain source names hne hcomponents steps hsteps
    have hrenames : RenamesInPlace source steps := by
      rintro i hi ⟨old, new⟩ hremap base -
      have hreplaces := replaces_of_remapped? hremap
      have hold := hreplaces.hasExtension
      exact (hplain _ (hsteps _ (List.getElem_mem hi)) old new hreplaces.remap?_eq hold.1
        hold.slash_notMem).keepsName base
    have hself := isBeside_self (components_eq_of_names hcomponents hne)
    have hbeside := (isBeside_take_iff hself).mpr hrenames steps.length
    rwa [List.take_length] at hbeside

end OutputPath

end Filewise
