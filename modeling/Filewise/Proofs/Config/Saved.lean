import Filewise.Config.OfToml
import Filewise.Config.Save
import Filewise.Proofs.Toml.Read

/-!
# Reading saved configurations

A saved configuration is a document with every setting in it. TOML can carry all of them, so the
reader gives the document back, with targets, entries of chains and options in the order of their
fields. No layer of settings is below it, so each setting is read as it was, and the configuration
is the one that was saved. Only options that are nested too deeply are written and not read.

## Main definitions

* `ChainEntry.IsProper`, `Target.IsProper`, `BuildConfig.IsProper`: dictionaries in order, and
  options that are proper values.
* `BuildConfig.document`: the table that a configuration is saved as.

## Main results

* `Setting.toValue_ofValue`: a value that can be written comes back out of its setting.
* `SettingReader.target_ofValue`: a target is read as it was written.
* `BuildConfig.isLegible_savedFields`: TOML can carry the settings of a configuration.
* `BuildConfig.accepted_saved`: a configuration is accepted from its own settings.
-/

namespace Filewise

/-! ### What can be written -/

namespace Toml

/-- An integer that can be written has 64 bits with a sign, unless it is too small. -/
theorem lt_signedBound_of_unwritable? {n : Int} (h : unwritable? (.integer n) = none) :
    n < Word.signedBound := by
  by_contra hn
  simp [unwritable?, hn] at h

theorem unwritableItem?_eq_none_iff {items : List Value} :
    unwritableItem? items = none ↔ ∀ v ∈ items, unwritable? v = none := by
  induction items with
  | nil => simp [unwritableItem?]
  | cons v rest ih => simp [unwritableItem?, ih]

theorem unwritableField?_eq_none_iff {fields : List (String × Value)} :
    unwritableField? fields = none ↔ ∀ field ∈ fields, unwritable? field.2 = none := by
  induction fields with
  | nil => simp [unwritableField?]
  | cons field rest ih =>
    obtain ⟨name, v⟩ := field
    simp [unwritableField?, ih]

end Toml

namespace Value

mutual

/-- TOML can carry a proper value that can be written. -/
theorem isLegible_of_isProper : ∀ {v : Value}, v.isProper = true → Toml.unwritable? v = none →
    v.isLegible = true
  | .integer n, h, hw => by
    have hn : n < Word.signedBound := Toml.lt_signedBound_of_unwritable? hw
    simp only [isProper, Bool.and_eq_true, decide_eq_true_eq] at h
    exact Word.fitsSigned_iff.mpr ⟨h.1, hn⟩
  | .array items, h, hw => by
    rw [isProper] at h
    rw [Toml.unwritable?] at hw
    exact areLegible_of_areProper h hw
  | .object fields, h, hw => by
    simp only [isProper, Bool.and_eq_true, decide_eq_true_eq] at h
    rw [Toml.unwritable?] at hw
    rw [isLegible, Bool.and_eq_true, decide_eq_true_eq]
    exact ⟨h.1.nodup, haveLegible_of_haveProper h.2 hw⟩
  | .float _, h, _ => h
  | .bool _, _, _ | .text _, _, _ => rfl

theorem areLegible_of_areProper : ∀ {items : List Value}, areProper items = true →
    Toml.unwritableItem? items = none → areLegible items = true
  | [], _, _ => rfl
  | v :: rest, h, hw => by
    simp only [areProper, Bool.and_eq_true] at h
    rw [Toml.unwritableItem?, Option.or_eq_none_iff] at hw
    rw [areLegible, isLegible_of_isProper h.1 hw.1, areLegible_of_areProper h.2 hw.2]
    rfl

theorem haveLegible_of_haveProper : ∀ {fields : List (String × Value)},
    haveProper fields = true → Toml.unwritableField? fields = none → haveLegible fields = true
  | [], _, _ => rfl
  | (name, v) :: rest, h, hw => by
    simp only [haveProper, Bool.and_eq_true] at h
    rw [Toml.unwritableField?, Option.or_eq_none_iff] at hw
    rw [haveLegible, isLegible_of_isProper h.1 hw.1, haveLegible_of_haveProper h.2 hw.2]
    rfl

end

end Value

/-! ### Proper configurations -/

/-- The options of an entry are proper values. -/
def ChainEntry.IsProper (entry : ChainEntry) : Prop :=
  ∀ options ∈ entry.options?, (Value.object options).isProper = true

instance (entry : ChainEntry) : Decidable entry.IsProper :=
  inferInstanceAs (Decidable (∀ options ∈ entry.options?, _))

/-- The dictionaries of a target are in order, and all its options are proper values. -/
structure Target.IsProper (t : Target) : Prop where
  chains_ordered : t.chains.Ordered
  chains : ∀ chain ∈ t.chains, ∀ entry ∈ chain.2, entry.IsProper
  defaultChain : ∀ entry ∈ t.defaultChain, entry.IsProper
  transformers_ordered : t.transformers.Ordered
  transformers : ∀ entry ∈ t.transformers, (Value.object entry.2).isProper = true

instance (t : Target) : Decidable t.IsProper :=
  decidable_of_iff (t.chains.Ordered ∧ (∀ chain ∈ t.chains, ∀ entry ∈ chain.2, entry.IsProper) ∧
    (∀ entry ∈ t.defaultChain, entry.IsProper) ∧ t.transformers.Ordered ∧
    ∀ entry ∈ t.transformers, (Value.object entry.2).isProper = true)
    ⟨fun ⟨h₁, h₂, h₃, h₄, h₅⟩ => ⟨h₁, h₂, h₃, h₄, h₅⟩, fun h => ⟨h.1, h.2, h.3, h.4, h.5⟩⟩

/-- The dictionaries of all targets are in order, and all options are proper values. -/
def BuildConfig.IsProper (c : BuildConfig) : Prop := ∀ t ∈ c.targets, t.IsProper

instance (c : BuildConfig) : Decidable c.IsProper :=
  inferInstanceAs (Decidable (∀ t ∈ c.targets, _))

/-! ### Settings of values -/

namespace Setting

variable {origin : Option String}

theorem ofItems_eq_map (items : List Value) :
    ofItems origin items = items.map (ofValue origin) := by
  induction items with
  | nil => rfl
  | cons v rest ih => rw [ofItems, ih, List.map_cons]

theorem ofFields_eq_map (fields : List (String × Value)) :
    ofFields origin fields = fields.map fun (name, v) => (name, ofValue origin v) := by
  induction fields with
  | nil => rfl
  | cons field rest ih => rw [ofFields, ih, List.map_cons]

mutual

/-- A proper value that can be written comes back out of its setting. -/
theorem toValue_ofValue : ∀ {v : Value}, v.isProper = true → Toml.unwritable? v = none →
    (ofValue origin v).toValue = v
  | .integer n, _, hw => by
    have hn : n < Word.signedBound := Toml.lt_signedBound_of_unwritable? hw
    rw [ofValue, if_pos hn]
    rfl
  | .float x, h, _ => by
    rw [Value.isProper] at h
    simp [ofValue, toValue, h]
  | .array items, h, hw => by
    rw [ofValue, toValue, itemValues_ofItems (by simpa [Value.isProper] using h)
      (by simpa [Toml.unwritable?] using hw)]
  | .object fields, h, hw => by
    simp only [Value.isProper, Bool.and_eq_true, decide_eq_true_eq] at h
    rw [ofValue, toValue, fieldValues_ofFields h.2 (by simpa [Toml.unwritable?] using hw),
      Dict.ofList_eq_self h.1]
  | .null, _, _ | .bool _, _, _ | .text _, _, _ => rfl

theorem itemValues_ofItems : ∀ {items : List Value}, Value.areProper items = true →
    Toml.unwritableItem? items = none → itemValues (ofItems origin items) = items
  | [], _, _ => rfl
  | v :: rest, h, hw => by
    simp only [Value.areProper, Bool.and_eq_true] at h
    rw [Toml.unwritableItem?, Option.or_eq_none_iff] at hw
    rw [ofItems, itemValues, toValue_ofValue h.1 hw.1, itemValues_ofItems h.2 hw.2]

theorem fieldValues_ofFields : ∀ {fields : List (String × Value)},
    Value.haveProper fields = true → Toml.unwritableField? fields = none →
    fieldValues (ofFields origin fields) = fields
  | [], _, _ => rfl
  | (name, v) :: rest, h, hw => by
    simp only [Value.haveProper, Bool.and_eq_true] at h
    rw [Toml.unwritableField?, Option.or_eq_none_iff] at hw
    rw [ofFields, fieldValues, toValue_ofValue h.1 hw.1, fieldValues_ofFields h.2 hw.2]

end

end Setting

/-! ### Reading settings -/

namespace SettingReader

variable {α β : Type} {origin : Option String} {k : SettingKey}

/-- A list is read as it was if its items are. -/
theorem list_map {item : SettingReader α} {f : α → Setting} {items : List α}
    (h : ∀ a ∈ items, ∀ k, item k (f a) = .ok a) :
    list item k (.list origin (items.map f)) = .ok items := by
  have hall : ∀ n, ((items.map f).zipIdx n).mapM (fun p => item (k.item p.2) p.1) =
      .ok items := by
    induction items with
    | nil => exact fun _ => rfl
    | cons a rest ih =>
      intro n
      rw [List.map_cons, List.zipIdx_cons, List.mapM_cons,
        ih (fun b hb => h b (List.mem_cons_of_mem _ hb)) (n + 1)]
      simp only [h a List.mem_cons_self]
      rfl
  exact hall 0

/-- A dictionary is read as it was if it is in order and its values are read so. -/
theorem dict_map {item : SettingReader α} {f : α → Setting} {d : Dict α} (hd : d.Ordered)
    (h : ∀ entry ∈ d, ∀ k, item k (f entry.2) = .ok entry.2) :
    dict item k (.table origin (d.map fun p => (p.1, f p.2))) = .ok d := by
  have hall : (d.map fun p => (p.1, f p.2)).mapM (fun p => do
      return (p.1, ← item (k.field p.1) p.2)) = (.ok d : Except SettingError _) := by
    clear hd
    induction d with
    | nil => rfl
    | cons entry rest ih =>
      obtain ⟨name, a⟩ := entry
      rw [List.map_cons, List.mapM_cons, ih fun entry hentry =>
        h entry (List.mem_cons_of_mem _ hentry)]
      simp only [h (name, a) List.mem_cons_self]
      rfl
  simp only [dict]
  rw [hall]
  simp only [bind, Except.bind, pure, Except.pure]
  rw [Dict.ofList_eq_self hd]

/-- Options that can be written are read as they were. -/
theorem options_ofValue {options : Options} (h : (Value.object options).isProper = true)
    (hw : Toml.unwritable? (.object options) = none) :
    SettingReader.options k (Setting.ofValue origin (.object options)) = .ok options := by
  simp only [Value.isProper, Bool.and_eq_true, decide_eq_true_eq, Value.haveProper_iff] at h
  rw [Toml.unwritable?, Toml.unwritableField?_eq_none_iff] at hw
  rw [Setting.ofValue, Setting.ofFields_eq_map]
  exact dict_map h.1 fun entry hentry _ =>
    congrArg Except.ok (Setting.toValue_ofValue (h.2 entry hentry) (hw entry hentry))

end SettingReader

/-! ### Entries and targets -/

/-- An entry of a chain with its fields in order. -/
theorem ChainEntry.sorted_toValue_configured (t : String) {options : Options}
    (h : (Value.object options).isProper = true) :
    (ChainEntry.configured t options).toValue.sorted =
      .object [("options", .object options), ("transformer", .text t)] := by
  have hoptions := Value.sorted_eq_self h
  rw [ChainEntry.toValue, Value.sorted, Value.sortedFields_eq_map]
  simp only [List.map_cons, List.map_nil, hoptions]
  rfl

/-- TOML can carry an entry of a chain that can be written. -/
theorem ChainEntry.isLegible_toValue {entry : ChainEntry} (h : entry.IsProper)
    (hw : Toml.unwritable? entry.toValue = none) : entry.toValue.isLegible = true := by
  cases entry with
  | bare t => rfl
  | configured t options =>
    have hoptions : (Value.object options).isLegible = true :=
      Value.isLegible_of_isProper (h options rfl) (by
        simpa [ChainEntry.toValue, Toml.unwritable?, Toml.unwritableField?] using hw)
    rw [ChainEntry.toValue, Value.isLegible, Value.haveLegible, Value.haveLegible, hoptions]
    rfl

/-- If a target can be written, all its entries and options can. -/
theorem Target.unwritable?_toValue_eq_none {t : Target} (hw : Toml.unwritable? t.toValue = none) :
    (∀ chain ∈ t.chains, ∀ entry ∈ chain.2, Toml.unwritable? entry.toValue = none) ∧
      (∀ entry ∈ t.defaultChain, Toml.unwritable? entry.toValue = none) ∧
      ∀ entry ∈ t.transformers, Toml.unwritable? (.object entry.2) = none := by
  simp only [Target.toValue, Toml.unwritable?, Toml.unwritableField?_eq_none_iff,
    Toml.unwritableItem?_eq_none_iff, List.mem_cons, List.not_mem_nil, or_false, forall_eq_or_imp,
    forall_eq, List.forall_mem_map] at hw
  obtain ⟨-, -, -, -, -, hchains, hdefault, htransformers⟩ := hw
  exact ⟨hchains, hdefault, fun entry hentry =>
    Toml.unwritableField?_eq_none_iff.mpr (htransformers entry hentry)⟩

/-- TOML can carry the values of a dictionary in order if it can carry each of them. -/
theorem Value.isLegible_object_map {α : Type} {d : Dict α} {f : α → Value} (hd : d.Ordered)
    (h : ∀ entry ∈ d, (f entry.2).isLegible = true) :
    (Value.object (d.map fun (k, a) => (k, f a))).isLegible = true := by
  rw [isLegible_object_iff, List.forall_mem_map]
  exact ⟨((Dict.ordered_map f).mpr hd).nodup, h⟩

/-- TOML can carry a target that can be written. -/
theorem Target.isLegible_toValue {t : Target} (h : t.IsProper)
    (hw : Toml.unwritable? t.toValue = none) : t.toValue.isLegible = true := by
  obtain ⟨hwchains, hwdefault, hwtransformers⟩ := Target.unwritable?_toValue_eq_none hw
  have htexts : ∀ texts : List String, (Value.array (texts.map .text)).isLegible = true := by
    intro texts
    rw [Value.isLegible_array_iff, List.forall_mem_map]
    exact fun _ _ => rfl
  have hchain : ∀ entries : List ChainEntry, (∀ entry ∈ entries, entry.IsProper) →
      (∀ entry ∈ entries, Toml.unwritable? entry.toValue = none) →
      (Value.array (entries.map ChainEntry.toValue)).isLegible = true := by
    intro entries hproper hwritable
    rw [Value.isLegible_array_iff, List.forall_mem_map]
    exact fun entry hentry => ChainEntry.isLegible_toValue (hproper entry hentry)
      (hwritable entry hentry)
  have hoptions : ∀ entry ∈ t.transformers, (Value.object entry.2).isLegible = true :=
    fun entry hmem => Value.isLegible_of_isProper (h.transformers entry hmem)
      (hwtransformers entry hmem)
  rw [Target.toValue, Value.isLegible_object_iff]
  simp only [List.forall_mem_cons]
  refine ⟨?_, rfl, rfl, rfl, htexts _, htexts _, ?_, ?_, ?_, ?_⟩
  · change List.Nodup ["id", "source_root", "output_root", "include", "exclude", "chains",
      "default_chain", "transformers"]
    decide +kernel
  · exact Value.isLegible_object_map (f := fun entries => .array (entries.map ChainEntry.toValue))
      h.chains_ordered fun chain hmem => hchain chain.2 (h.chains chain hmem) (hwchains chain hmem)
  · exact hchain t.defaultChain h.defaultChain hwdefault
  · exact Value.isLegible_object_map h.transformers_ordered hoptions
  · exact fun _ hmem => absurd hmem List.not_mem_nil

/-- A target with its fields in order. -/
theorem Target.sorted_toValue {t : Target} (h : t.IsProper) : t.toValue.sorted = .object
    [("chains", .object (t.chains.map fun (e, entries) =>
        (e, .array (entries.map fun entry => entry.toValue.sorted)))),
      ("default_chain", .array (t.defaultChain.map fun entry => entry.toValue.sorted)),
      ("exclude", .array (t.excludes.map .text)),
      ("id", .text t.id),
      ("include", .array (t.includes.map .text)),
      ("output_root", .text t.outputRoot.text),
      ("source_root", .text t.sourceRoot.text),
      ("transformers", .object (t.transformers.map fun (id, o) => (id, .object o)))] := by
  have htexts : ∀ texts : List String,
      (Value.array (texts.map .text)).sorted = .array (texts.map .text) := by
    intro texts
    rw [Value.sorted, Value.sortedItems_eq_map, List.map_map]
    rfl
  have hchain : ∀ entries : List ChainEntry,
      (Value.array (entries.map ChainEntry.toValue)).sorted =
        .array (entries.map fun entry => entry.toValue.sorted) := by
    intro entries
    rw [Value.sorted, Value.sortedItems_eq_map, List.map_map]
    rfl
  have hchains : (Value.object (t.chains.map fun (e, entries) =>
        (e, .array (entries.map ChainEntry.toValue)))).sorted =
      .object (t.chains.map fun (e, entries) =>
        (e, .array (entries.map fun entry => entry.toValue.sorted))) := by
    rw [Value.sorted, Value.sortedFields_eq_map, List.map_map, Dict.ofList_eq_self]
    · simp only [Function.comp_def, hchain]
    · simpa [Dict.Ordered, Dict.keys, Function.comp_def] using h.chains_ordered
  have htransformers : (Value.object (t.transformers.map fun (id, o) => (id, .object o))).sorted =
      .object (t.transformers.map fun (id, o) => (id, .object o)) := by
    refine Value.sorted_eq_self ?_
    rw [Value.isProper, Bool.and_eq_true, decide_eq_true_eq, Value.haveProper_iff]
    refine ⟨(Dict.ordered_map _).mpr h.transformers_ordered, fun field hfield => ?_⟩
    obtain ⟨entry, hentry, rfl⟩ := List.mem_map.mp hfield
    exact h.transformers entry hentry
  rw [toValue, Value.sorted, Value.sortedFields_eq_map]
  simp only [List.map_cons, List.map_nil, hchain, hchains, htexts, htransformers]
  rfl

namespace SettingReader

variable {origin : Option String} {k : SettingKey}

/-- An entry of a chain that can be written is read as it was. -/
theorem chainEntry_ofValue {entry : ChainEntry} (h : entry.IsProper)
    (hw : Toml.unwritable? entry.toValue = none) :
    chainEntry k (Setting.ofValue origin entry.toValue.sorted) = .ok entry := by
  cases entry with
  | bare t => rfl
  | configured t options =>
    have hproper : (Value.object options).isProper = true := h options rfl
    have hwritable : Toml.unwritable? (.object options) = none := by
      simpa [ChainEntry.toValue, Toml.unwritable?, Toml.unwritableField?] using hw
    have hoptions : (Setting.ofValue origin (.object options)).toValue = .object options :=
      Setting.toValue_ofValue hproper hwritable
    simp only [chainEntry, ChainEntry.sorted_toValue_configured t hproper, Setting.ofValue,
      Setting.ofFields, Setting.toValue, Setting.fieldValues] at hoptions ⊢
    rw [hoptions]
    rfl

/-- A target that can be written is read as it was. -/
theorem target_ofValue {t : Target} (h : t.IsProper) (hw : Toml.unwritable? t.toValue = none) :
    target k (Setting.ofValue origin t.toValue.sorted) = .ok t := by
  have htexts : ∀ (k : SettingKey) (texts : List String),
      list text k (Setting.ofValue origin (.array (texts.map .text))) = .ok texts := by
    intro k texts
    rw [Setting.ofValue, Setting.ofItems_eq_map, List.map_map]
    exact list_map fun s _ k => rfl
  have hchain : ∀ (k : SettingKey) (entries : List ChainEntry),
      (∀ entry ∈ entries, entry.IsProper) →
      (∀ entry ∈ entries, Toml.unwritable? entry.toValue = none) →
      list chainEntry k (Setting.ofValue origin
        (.array (entries.map fun entry => entry.toValue.sorted))) = .ok entries := by
    intro k entries hproper hwritable
    rw [Setting.ofValue, Setting.ofItems_eq_map, List.map_map]
    exact list_map fun entry hentry k =>
      chainEntry_ofValue (hproper entry hentry) (hwritable entry hentry)
  obtain ⟨hwchains, hwdefault, hwtransformers⟩ := Target.unwritable?_toValue_eq_none hw
  have hchains : ∀ k : SettingKey, dict (list chainEntry) k (Setting.ofValue origin
      (.object (t.chains.map fun (e, entries) =>
        (e, .array (entries.map fun entry => entry.toValue.sorted))))) = .ok t.chains := by
    intro k
    rw [Setting.ofValue, Setting.ofFields_eq_map, List.map_map]
    exact dict_map (f := fun entries => Setting.ofValue origin
      (.array (entries.map fun entry => entry.toValue.sorted))) h.chains_ordered
      fun entry hentry k => hchain k entry.2 (h.chains entry hentry) (hwchains entry hentry)
  have htransformers : ∀ k : SettingKey, dict options k (Setting.ofValue origin
      (.object (t.transformers.map fun (id, o) => (id, .object o)))) = .ok t.transformers := by
    intro k
    rw [Setting.ofValue, Setting.ofFields_eq_map, List.map_map]
    exact dict_map (f := fun o => Setting.ofValue origin (.object o)) h.transformers_ordered
      fun entry hentry k => options_ofValue (h.transformers entry hentry)
        (hwtransformers entry hentry)
  have hdefault := fun k => hchain k t.defaultChain h.defaultChain hwdefault
  -- the fields are set one after the other, in the order in which they are written
  rw [Target.sorted_toValue h, Setting.ofValue, Setting.ofFields_eq_map, target]
  simp only [record, List.map_cons, List.map_nil, List.foldlM_cons, List.foldlM_nil]
  simp only [Decode.targetFields, List.contains_eq_mem, List.mem_cons, String.reduceEq,
    List.not_mem_nil, or_self, or_false, or_true, decide_true, ↓reduceIte, setTargetField, hchains,
    bind_pure_comp, Except.map_ok, hdefault, htexts, htransformers, bind_pure, bind_map_left,
    bind_assoc]
  rfl

end SettingReader

/-! ### Configurations -/

namespace BuildConfig

variable {c : BuildConfig}

/-- If a configuration can be written, its number of workers and its targets can. -/
theorem unwritableField?_savedFields_eq_none (hw : Toml.unwritableField? c.savedFields = none) :
    (∀ n ∈ c.concurrency, Toml.unwritable? (.integer n) = none) ∧
      ∀ t ∈ c.targets, Toml.unwritable? t.toValue = none := by
  simp only [savedFields, Toml.unwritableField?_eq_none_iff, List.mem_cons, List.not_mem_nil,
    or_false, forall_eq_or_imp, forall_eq, Toml.unwritable?, Toml.unwritableItem?_eq_none_iff,
    List.forall_mem_map] at hw
  refine ⟨fun n hn => ?_, hw.2⟩
  have hfield := hw.1 ("concurrency", .integer n)
  rw [Option.mem_def.mp hn] at hfield
  exact hfield List.mem_cons_self

/-- The number of workers that can be written is read as it was. -/
theorem settings_ofValue {k : SettingKey} {origin : Option String} {concurrency : Option Nat}
    (hw : ∀ n ∈ concurrency, Toml.unwritable? (.integer n) = none) :
    SettingReader.settings k (Setting.layered none (Setting.ofValue origin
      (.object (concurrency.map fun n : Nat => ("concurrency", Value.integer n)).toList))) =
      .ok concurrency := by
  cases concurrency with
  | none => rfl
  | some n =>
    have hn : (n : Int) < Word.signedBound := Toml.lt_signedBound_of_unwritable? (hw n rfl)
    have hkey : Text.lowerCase "concurrency" = "concurrency" := by decide +kernel
    have hlayered : Setting.layered none (Setting.ofValue origin
        (.object [("concurrency", .integer n)])) =
        .table none [("concurrency", .scalar origin (.integer n))] := by
      simp [Setting.ofValue, Setting.ofFields, hn, Setting.layered, Setting.overlayFields, hkey,
        Dict.insert, Setting.tableOrigin, Setting.fieldsOf]
    rw [Option.map_some, Option.toList_some, hlayered]
    simp [SettingReader.settings, SettingReader.record, SettingReader.count]

/-- The two settings of a saved configuration are in order. -/
theorem ordered_build_targets {α : Type} (build targets : α) :
    Dict.Ordered [("build", build), ("targets", targets)] := by
  change List.Pairwise (· < ·) ["build", "targets"]
  decide +kernel

/-- The table that a configuration is saved as: all its settings in order. -/
def document (c : BuildConfig) : Options := Dict.ofList (Value.sortedFields c.savedFields)

theorem document_eq (c : BuildConfig) : c.document =
      [("build",
          .object (c.concurrency.map fun n : Nat => ("concurrency", Value.integer n)).toList),
        ("targets", .array (c.targets.map fun t => t.toValue.sorted))] := by
  rw [document, savedFields, Value.sortedFields_eq_map]
  simp only [List.map_cons, List.map_nil]
  rw [Dict.ofList_eq_self (ordered_build_targets _ _)]
  cases c.concurrency <;> simp [Value.sorted, Value.sortedItems_eq_map, Value.sortedFields,
    Dict.ofList, Dict.overlay, Dict.insert]

/-- Two settings at the top of a single layer. -/
theorem overlay_build_targets (build targets : Setting) :
    (Setting.table none []).overlay [("build", build), ("targets", targets)] =
      .table none [("build", Setting.layered none build),
        ("targets", Setting.layered none targets)] := by
  have hbuild : SettingPath.parse? "build" = some (.name "build") := by decide +kernel
  have htargets : SettingPath.parse? "targets" = some (.name "targets") := by decide +kernel
  have hbuildKey : Text.lowerCase "build" = "build" := by decide +kernel
  have htargetsKey : Text.lowerCase "targets" = "targets" := by decide +kernel
  have hinsert : ∀ a b : Setting, Dict.insert [("build", a)] "targets" b =
      [("build", a), ("targets", b)] := fun a b => Dict.ofList_eq_self (ordered_build_targets a b)
  have hfirst : ∀ a : Setting, Dict.insert [] "build" a = [("build", a)] := fun _ => rfl
  simp [Setting.overlay, hbuild, htargets, Setting.setAt, Setting.change, hbuildKey, htargetsKey,
    Setting.tableOrigin, Setting.fieldsOf, hfirst, hinsert, Dict.find?]

/-- A configuration is accepted from its own settings if they can be written. -/
theorem accepted_saved (h : c.IsProper) (hvalid : c.fault? = none)
    (hw : Toml.unwritableField? c.savedFields = none) :
    accepted ((Setting.table none []).overlay (Setting.ofFields none c.document)) = .ok c := by
  obtain ⟨hworkers, hwtargets⟩ := unwritableField?_savedFields_eq_none hw
  have hbuild : ∀ k, SettingReader.settings k (Setting.layered none (Setting.ofValue none
      (.object (c.concurrency.map fun n : Nat => ("concurrency", Value.integer n)).toList))) =
      .ok c.concurrency := fun k => settings_ofValue hworkers
  have htargets : ∀ k, SettingReader.list SettingReader.target k (Setting.ofValue none
      (.array (c.targets.map fun t => t.toValue.sorted))) = .ok c.targets := by
    intro k
    rw [Setting.ofValue, Setting.ofItems_eq_map, List.map_map]
    exact SettingReader.list_map fun t ht k =>
      SettingReader.target_ofValue (h t ht) (hwtargets t ht)
  have hlist : ∀ items, Setting.layered none (Setting.ofValue none (.array items)) =
      Setting.ofValue none (.array items) := fun items => by
    simp [Setting.ofValue, Setting.layered]
  have hread : ofSetting (.table none
      [("build", Setting.layered none (Setting.ofValue none
        (.object (c.concurrency.map fun n : Nat => ("concurrency", Value.integer n)).toList))),
      ("targets", Setting.ofValue none (.array (c.targets.map fun t => t.toValue.sorted)))]) =
      .ok c := by
    simp only [ofSetting, SettingReader.record, List.foldlM_cons, List.foldlM_nil,
      List.contains_eq_mem, List.mem_cons, String.reduceEq, List.not_mem_nil, or_false,
      or_true, decide_true, ↓reduceIte, hbuild, htargets]
    rfl
  rw [document_eq, Setting.ofFields, Setting.ofFields, Setting.ofFields,
    overlay_build_targets, hlist, accepted, hread]
  simp only [hvalid]

/-- TOML can carry the settings of a configuration that can be written. -/
theorem isLegible_savedFields (h : c.IsProper)
    (hw : Toml.unwritableField? c.savedFields = none) :
    (Value.object c.savedFields).isLegible = true := by
  obtain ⟨hworkers, hwtargets⟩ := unwritableField?_savedFields_eq_none hw
  have htargets : (Value.array (c.targets.map Target.toValue)).isLegible = true := by
    rw [Value.isLegible_array_iff, List.forall_mem_map]
    exact fun t ht => Target.isLegible_toValue (h t ht) (hwtargets t ht)
  rw [savedFields, Value.isLegible_object_iff]
  simp only [List.forall_mem_cons]
  refine ⟨?_, ?_, htargets, fun _ hmem => absurd hmem List.not_mem_nil⟩
  · change List.Nodup ["build", "targets"]
    decide +kernel
  · cases hconcurrency : c.concurrency with
    | none => rfl
    | some n =>
      have hn : (n : Int) < Word.signedBound :=
        Toml.lt_signedBound_of_unwritable? (hworkers n hconcurrency)
      have hbound : -(Word.signedBound : Int) ≤ n := by omega
      have hfits : (Value.integer n).isLegible = true := Word.fitsSigned_iff.mpr ⟨hbound, hn⟩
      exact Value.isLegible_object_iff.mpr ⟨List.nodup_singleton _, by simpa using hfits⟩

/-- A saved configuration loads back unchanged from its document. The reader gives the document back
unless it is nested too deeply. -/
theorem ofToml_save {text : String} (h : c.IsProper) (hvalid : c.fault? = none)
    (hsave : c.save = .ok text) :
    (Toml.read? text = some c.document → ofToml text = .ok c) ∧
      Toml.read? text = if Toml.isShallow c.savedFields then some c.document else none := by
  unfold save Toml.write at hsave
  split at hsave
  · cases hsave
  · rename_i hw
    cases hsave
    refine ⟨fun hread => ?_, Toml.read?_linesText (isLegible_savedFields h hw)⟩
    rw [ofToml, hread]
    exact accepted_saved h hvalid hw

/-- A configuration with options for an entry of a chain. -/
def flagged : BuildConfig :=
  { concurrency := some 4
    targets := [{ Target.new "esm" ⟨"a"⟩ ⟨"b"⟩ with
      defaultChain := [.configured "x" [("t", .bool true)]] }] }

/-- A configuration that is saved and loaded back. -/
theorem flagged_ofToml_save : ∃ text, flagged.save = .ok text ∧ ofToml text = .ok flagged := by
  have h := ofToml_save (by decide +kernel : flagged.IsProper) (by decide +kernel) rfl
  have hshallow : Toml.isShallow flagged.savedFields = true :=
    Toml.isShallow_of_fieldDepth_lt (by decide +kernel)
  exact ⟨_, rfl, h.1 (h.2.trans (if_pos hshallow))⟩

end BuildConfig

end Filewise
