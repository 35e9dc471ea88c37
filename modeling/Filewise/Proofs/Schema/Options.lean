import Filewise.Proofs.Schema.Places
import Filewise.Schema.Options
import Mathlib.Data.List.Nodup

/-!
# Each option is validated on its own

What is wrong with options is what is wrong with each of them, by its own rule and its own value:
first the options without a rule, then those with one, both in ascending order. Nothing that is
wrong with one option hides or changes what is reported for another one, so taking an option away
together with its rule takes away its violations and no others.

Options that are accepted are completed by defaults, which are not checked. So the completed options
are accepted again if and only if each default that was taken passes its own rule.

All of this holds with any compiler of schemas. That violations point to parts of the values holds
with those compilers that point inside the values they check, as the standard one does.

## Main definitions

* `optionViolations`: what is wrong with one option.
* `ReportsEachOption`: a list of what is wrong with each option, in order.
* `AddsViolations`: what is reported only because an option, or its rule, is there.
* `OptionSchema.TakenDefaultsPass`: the defaults that are taken would be accepted as values.

## Main results

* `reported_validateOptions`: what is reported, option by option.
* `addsViolations_optionViolations`: no option changes what is reported for another one.
* `validateOptions_reports_each_option`, `validateOptions_again_iff`.
-/

namespace Filewise

open OptionSchema

variable {schema : OptionSchema} {schema? : Option OptionSchema} {options completed : Options}
  {name : String} {rule : OptionRule} {value : Value} {given? : Option Value}

/-! ### Options and their rules -/

/-- The options that rules are about; there are none without rules. -/
def declaredOptions : Option OptionSchema → List String
  | some schema => schema.keys
  | none => []

/-- The options that are given and that no rule is about. -/
def undeclaredOptions (schema? : Option OptionSchema) (options : Options) : List String :=
  options.keys.filter fun name => name ∉ declaredOptions schema?

/-- The rule for an option. -/
def ruleFor? (schema? : Option OptionSchema) (name : String) : Option OptionRule :=
  schema?.bind fun schema => schema.find? name

/-- Why an option without a rule is refused. -/
def undeclaredMessage : Option OptionSchema → String
  | some _ => "unknown option"
  | none => "transformer does not accept options"

/-- Rules and options without those for one name. -/
def withoutOption (schema? : Option OptionSchema) (name : String) : Option OptionSchema :=
  schema?.map fun schema => schema.erase name

theorem ruleFor?_eq_none_iff : ruleFor? schema? name = none ↔ name ∉ declaredOptions schema? := by
  cases schema? with
  | none => simp [ruleFor?, declaredOptions]
  | some schema => exact Dict.find?_eq_none_iff

theorem mem_declaredOptions_iff :
    name ∈ declaredOptions schema? ↔ ∃ rule, ruleFor? schema? name = some rule := by
  rw [← not_iff_not, ← ruleFor?_eq_none_iff, Option.eq_none_iff_forall_ne_some]
  simp

theorem mem_undeclaredOptions_iff : name ∈ undeclaredOptions schema? options ↔
    (∃ value, options.find? name = some value) ∧ ruleFor? schema? name = none := by
  rw [undeclaredOptions, List.mem_filter, Dict.mem_keys_iff, ruleFor?_eq_none_iff,
    decide_eq_true_eq]

theorem declaredOptions_ascending (h : ∀ schema ∈ schema?, schema.Ordered) :
    (declaredOptions schema?).Pairwise (· < ·) := by
  cases schema? with
  | none => exact List.Pairwise.nil
  | some schema => exact h schema rfl

theorem undeclaredOptions_ascending (schema? : Option OptionSchema) (h : options.Ordered) :
    (undeclaredOptions schema? options).Pairwise (· < ·) :=
  List.Pairwise.filter _ h

/-- No option is reported on twice. -/
theorem nodup_undeclaredOptions_append (hschema : ∀ schema ∈ schema?, schema.Ordered)
    (h : options.Ordered) :
    (undeclaredOptions schema? options ++ declaredOptions schema?).Nodup := by
  have hne : ∀ {a b : String}, a < b → a ≠ b := fun hlt heq => String.lt_irrefl _ (heq ▸ hlt)
  apply List.nodup_append.mpr
  refine ⟨(undeclaredOptions_ascending schema? h).imp hne,
    (declaredOptions_ascending hschema).imp hne, ?_⟩
  rintro undeclared hundeclared _ hdeclared rfl
  exact ruleFor?_eq_none_iff.mp (mem_undeclaredOptions_iff.mp hundeclared).2 hdeclared

theorem declaredOptions_withoutOption (schema? : Option OptionSchema) (name : String) :
    declaredOptions (withoutOption schema? name) =
      (declaredOptions schema?).filter fun other => other ≠ name := by
  cases schema? with
  | none => rfl
  | some schema => exact Dict.keys_erase schema name

theorem undeclaredOptions_withoutOption (schema? : Option OptionSchema) (options : Options)
    (name : String) :
    undeclaredOptions (withoutOption schema? name) (options.erase name) =
      (undeclaredOptions schema? options).filter fun other => other ≠ name := by
  rw [undeclaredOptions, undeclaredOptions, declaredOptions_withoutOption, Dict.keys_erase,
    List.filter_filter, List.filter_filter]
  apply List.filter_congr
  intro other _
  by_cases hother : other = name <;> simp [hother]

/-- Taking a name out of a list takes out what comes of it. -/
theorem exists_flatMap_eq {α : Type} {names : List String} {f g : String → List α}
    (hnodup : names.Nodup) (hname : name ∉ names → f name = [])
    (heq : ∀ other, other ≠ name → g other = f other) :
    ∃ before after, names.flatMap f = before ++ f name ++ after ∧
      (names.filter fun other => other ≠ name).flatMap g = before ++ after := by
  by_cases hmem : name ∈ names
  · -- the name stands at one place only, so the rest are other names
    obtain ⟨before, after, rfl⟩ := List.append_of_mem hmem
    rw [List.nodup_middle, List.nodup_cons] at hnodup
    have hne : ∀ other ∈ before ++ after, other ≠ name := by
      rintro other hother rfl
      exact hnodup.1 hother
    have hkept : (before ++ name :: after).filter (fun other => other ≠ name) =
        before ++ after := by
      rw [List.filter_append, List.filter_cons_of_neg (by simp), ← List.filter_append]
      exact List.filter_eq_self.mpr fun other hother => by simpa using hne other hother
    refine ⟨before.flatMap f, after.flatMap f, by simp, ?_⟩
    rw [hkept, ← List.flatMap_append]
    exact List.flatMap_congr fun other hother => heq other (hne other hother)
  · have hne : ∀ other ∈ names, other ≠ name := by
      rintro other hother rfl
      exact hmem hother
    refine ⟨names.flatMap f, [], by simp [hname hmem], ?_⟩
    rw [List.filter_eq_self.mpr fun other hother => by simpa using hne other hother,
      List.append_nil]
    exact List.flatMap_congr fun other hother => heq other (hne other hother)

/-! ### Completed options -/

/-- A completed option has the value that is given, or else the default. -/
theorem find?_complete (h : schema.Ordered) (options : Options) (name : String) :
    (schema.complete options).find? name =
      (schema.find? name).bind fun rule => valueFor? options name rule := by
  unfold complete
  induction schema with
  | nil => rfl
  | cons entry rest ih =>
    obtain ⟨key, rule⟩ := entry
    obtain ⟨hkey, hrest⟩ := List.pairwise_cons.mp h
    have hothers := ih hrest
    rw [Dict.find?_cons]
    split_ifs with heq
    · subst heq
      cases hvalue : valueFor? options key rule with
      | some value =>
        rw [List.filterMap_cons_some (by simp [hvalue]; rfl), Dict.find?_cons, if_pos rfl,
          Option.bind_some, hvalue]
      | none =>
        -- no later rule is for this option
        have hnone : Dict.find? rest key = none :=
          Dict.find?_eq_none_iff.mpr fun hmem => absurd (hkey key hmem) (String.lt_irrefl key)
        rw [List.filterMap_cons_none (by simp [hvalue]), hothers, hnone, Option.bind_some, hvalue]
        rfl
    · cases hvalue : valueFor? options key rule with
      | some value =>
        rw [List.filterMap_cons_some (by simp [hvalue]; rfl), Dict.find?_cons, if_neg heq, hothers]
      | none => rw [List.filterMap_cons_none (by simp [hvalue]), hothers]

/-- Completing options once more changes nothing. -/
theorem complete_complete (h : schema.Ordered) (options : Options) :
    schema.complete (schema.complete options) = schema.complete options := by
  apply List.filterMap_congr
  intro entry hentry
  have hrule := h.find?_eq_some_iff.mpr hentry
  have hvalue : valueFor? (schema.complete options) entry.1 entry.2 =
      valueFor? options entry.1 entry.2 := by
    unfold valueFor?
    rw [find?_complete h, hrule, Option.bind_some]
    unfold valueFor?
    rw [Option.or_assoc, Option.or_self]
  dsimp only
  rw [hvalue]

/-! ### What is wrong with one option -/

section Validation

variable [Schema.Compiler]

/-- What is wrong with one option, by its rule and by the value it is given, whatever other options
there are. -/
def optionViolations (schema? : Option OptionSchema) (name : String) (given? : Option Value) :
    List Violation :=
  match ruleFor? schema? name, given? with
  | some rule, some value => rule.check name value
  | some rule, none => if rule.isRequired then [⟨name, "required option is missing"⟩] else []
  | none, some _ => [⟨name, undeclaredMessage schema?⟩]
  | none, none => []

theorem optionViolations_undeclared (h : ruleFor? schema? name = none) (value : Value) :
    optionViolations schema? name (some value) = [⟨name, undeclaredMessage schema?⟩] := by
  unfold optionViolations
  rw [h]

theorem optionViolations_rule (h : ruleFor? schema? name = some rule) (value : Value) :
    optionViolations schema? name (some value) = rule.check name value := by
  unfold optionViolations
  rw [h]

theorem optionViolations_missing (h : ruleFor? schema? name = some rule) :
    optionViolations schema? name none =
      if rule.isRequired then [⟨name, "required option is missing"⟩] else [] := by
  unfold optionViolations
  rw [h]

/-- An option that is neither declared nor given is not spoken of. -/
theorem optionViolations_none (h : ruleFor? schema? name = none) :
    optionViolations schema? name none = [] := by
  unfold optionViolations
  rw [h]

/-! ### What is reported -/

/-- What is wrong with options that were validated. -/
def reported : Except (List Violation) Options → List Violation
  | .ok _ => []
  | .error violations => violations

/-- What a rule finds in options is what is wrong with its own option. -/
theorem ruleViolations_eq (h : schema.find? name = some rule) :
    ruleViolations options name rule =
      optionViolations (some schema) name (options.find? name) := by
  have hrule : ruleFor? (some schema) name = some rule := h
  unfold ruleViolations
  cases options.find? name with
  | none => rw [optionViolations_missing hrule]
  | some value => rw [optionViolations_rule hrule]

/-- Options without a rule have one violation each. -/
theorem map_undeclaredOptions (schema? : Option OptionSchema) (options : Options) :
    ((undeclaredOptions schema? options).map fun name => ⟨name, undeclaredMessage schema?⟩) =
      (undeclaredOptions schema? options).flatMap fun name =>
        optionViolations schema? name (options.find? name) := by
  rw [List.map_eq_flatMap]
  apply List.flatMap_congr
  intro name hname
  obtain ⟨⟨value, hvalue⟩, hrule⟩ := mem_undeclaredOptions_iff.mp hname
  rw [hvalue, optionViolations_undeclared hrule]

theorem violations_eq (h : schema.Ordered) (options : Options) :
    schema.violations options =
      (undeclaredOptions (some schema) options ++ schema.keys).flatMap fun name =>
        optionViolations (some schema) name (options.find? name) := by
  have hunknown : schema.unknownOptions options =
      (undeclaredOptions (some schema) options).map fun name =>
        ⟨name, undeclaredMessage (some schema)⟩ := by
    have hfilter : (options.keys.filter fun name => !Dict.contains schema name) =
        undeclaredOptions (some schema) options := by
      apply List.filter_congr
      intro name _
      rw [Bool.eq_iff_iff]
      simp [← Dict.contains_iff, declaredOptions]
    rw [unknownOptions, hfilter]
    rfl
  have hrules : (schema.flatMap fun entry => ruleViolations options entry.1 entry.2) =
      schema.keys.flatMap fun name =>
        optionViolations (some schema) name (options.find? name) := by
    rw [Dict.keys, List.flatMap_map]
    apply List.flatMap_congr
    intro entry hentry
    exact ruleViolations_eq (h.find?_eq_some_iff.mpr hentry)
  rw [List.flatMap_append, ← map_undeclaredOptions, ← hrules, ← hunknown]
  rfl

theorem reported_validate (schema : OptionSchema) (options : Options) :
    reported (schema.validate options) = schema.violations options := by
  unfold OptionSchema.validate
  split
  · next hnone => rw [hnone]; rfl
  · rfl

/-- What is reported is what is wrong with each option: first with those without a rule, then with
those with one. -/
theorem reported_validateOptions (h : ∀ schema ∈ schema?, schema.Ordered) (options : Options) :
    reported (validateOptions schema? options) =
      (undeclaredOptions schema? options ++ declaredOptions schema?).flatMap fun name =>
        optionViolations schema? name (options.find? name) := by
  cases schema? with
  | some schema => exact (reported_validate schema options).trans (violations_eq (h schema rfl) _)
  | none =>
    have hall : undeclaredOptions none options = options.keys := by
      simp [undeclaredOptions, declaredOptions]
    rw [declaredOptions, List.append_nil, ← map_undeclaredOptions, hall]
    cases options <;> rfl

/-- Options are valid where nothing is reported. -/
theorem exists_ok_iff_reported :
    (∃ completed, validateOptions schema? options = .ok completed) ↔
      reported (validateOptions schema? options) = [] := by
  cases schema? with
  | some schema =>
    rw [validateOptions, reported_validate, OptionSchema.validate]
    split
    · next hnone => simp [hnone]
    · next hsome => simpa using hsome
  | none => cases options <;> simp [validateOptions, reported, Dict.keys]

/-- Nothing is wrong with options for want of a rule exactly if each option has one. -/
theorem forall_undeclaredOptions_iff :
    (∀ name ∈ undeclaredOptions schema? options,
      optionViolations schema? name (options.find? name) = []) ↔
      ∀ name ∈ options.keys, name ∈ declaredOptions schema? := by
  constructor
  · intro hnil name hname
    by_contra hundeclared
    rw [← ruleFor?_eq_none_iff] at hundeclared
    obtain ⟨value, hvalue⟩ := Dict.mem_keys_iff.mp hname
    have hmem := mem_undeclaredOptions_iff.mpr ⟨⟨value, hvalue⟩, hundeclared⟩
    have hviolations := hnil name hmem
    simp [hvalue, optionViolations_undeclared hundeclared] at hviolations
  · intro hdeclared name hname
    obtain ⟨hgiven, hrule⟩ := mem_undeclaredOptions_iff.mp hname
    exact absurd (hdeclared name (Dict.mem_keys_iff.mpr hgiven)) (ruleFor?_eq_none_iff.mp hrule)

/-- Nothing is wrong with options by their rules exactly if none is missing and no value is
refused. -/
theorem forall_declaredOptions_iff :
    (∀ name ∈ declaredOptions schema?,
      optionViolations schema? name (options.find? name) = []) ↔
      ∀ name rule, ruleFor? schema? name = some rule →
        (rule.isRequired = true → name ∈ options.keys) ∧
        ∀ value, options.find? name = some value → rule.check name value = [] := by
  constructor
  · intro hnil name rule hrule
    have hviolations := hnil name (mem_declaredOptions_iff.mpr ⟨rule, hrule⟩)
    constructor
    · intro hrequired
      rw [← Dict.contains_iff, Dict.contains, Option.isSome_iff_ne_none]
      intro hnone
      simp [hnone, optionViolations_missing hrule, hrequired] at hviolations
    · intro value hvalue
      rw [hvalue, optionViolations_rule hrule] at hviolations
      exact hviolations
  · intro hrules name hname
    obtain ⟨rule, hrule⟩ := mem_declaredOptions_iff.mp hname
    cases hgiven : options.find? name with
    | none =>
      have hoptional : rule.isRequired ≠ true := fun hrequired =>
        Dict.find?_eq_none_iff.mp hgiven ((hrules name rule hrule).1 hrequired)
      rw [optionViolations_missing hrule, if_neg hoptional]
    | some value =>
      rw [optionViolations_rule hrule]
      exact (hrules name rule hrule).2 value hgiven

/-- Options are valid if each of them has a rule, none is missing, and no value is refused. -/
theorem exists_ok_iff (h : ∀ schema ∈ schema?, schema.Ordered) :
    (∃ completed, validateOptions schema? options = .ok completed) ↔
      (∀ name ∈ options.keys, name ∈ declaredOptions schema?) ∧
      ∀ name rule, ruleFor? schema? name = some rule →
        (rule.isRequired = true → name ∈ options.keys) ∧
        ∀ value, options.find? name = some value → rule.check name value = [] := by
  rw [exists_ok_iff_reported, reported_validateOptions h, List.flatMap_eq_nil_iff,
    List.forall_mem_append, forall_undeclaredOptions_iff, forall_declaredOptions_iff]

/-! ### Where violations are -/

/-- A violation is about an option as a whole, or about the place in its value to which the pointer
behind its name leads. A part of the value is there if compiled schemas refuse parts of values
only. -/
def IsAbout (name : String) (given? : Option Value) (v : Violation) : Prop :=
  v.field = name ∨ ∃ value pointer place, given? = some value ∧ v.field = name ++ pointer ∧
    Schema.readPointer? pointer = some place ∧
    (Schema.Compiler.PointsInside → value.HasPlace place)

theorem isAbout_of_mem_check {v : Violation} (h : v ∈ rule.check name value) :
    IsAbout name (some value) v := by
  unfold OptionRule.check at h
  split at h
  · rw [List.mem_singleton] at h
    exact Or.inl (by rw [h])
  · next findings hcompile =>
    obtain ⟨f, hf, rfl⟩ := List.mem_map.mp h
    exact Or.inr ⟨value, _, f.place, rfl, rfl, Schema.readPointer?_pointer f.place,
      fun hinside => hinside _ findings hcompile value f hf⟩

theorem isAbout_of_mem_optionViolations {v : Violation}
    (h : v ∈ optionViolations schema? name given?) : IsAbout name given? v := by
  unfold optionViolations at h
  split at h
  · exact isAbout_of_mem_check h
  · split_ifs at h
    · rw [List.mem_singleton] at h
      exact Or.inl (by rw [h])
    · simp at h
  · rw [List.mem_singleton] at h
    exact Or.inl (by rw [h])
  · simp at h

/-- A list of what is wrong with each option: first with the options without a rule, then with those
with one, both in ascending order. -/
structure ReportsEachOption (schema? : Option OptionSchema) (options : Options)
    (violations : List Violation) : Prop where
  undeclared_ascending : (undeclaredOptions schema? options).Pairwise (· < ·)
  declared_ascending : (declaredOptions schema?).Pairwise (· < ·)
  eq_flatMap : violations =
    (undeclaredOptions schema? options ++ declaredOptions schema?).flatMap fun name =>
      optionViolations schema? name (options.find? name)
  isAbout : ∀ v ∈ violations, ∃ name, IsAbout name (options.find? name) v ∧
    name ∈ undeclaredOptions schema? options ++ declaredOptions schema?

theorem reportsEachOption (hschema : ∀ schema ∈ schema?, schema.Ordered) (h : options.Ordered) :
    ReportsEachOption schema? options (reported (validateOptions schema? options)) := by
  have heq := reported_validateOptions hschema options
  refine ⟨undeclaredOptions_ascending schema? h, declaredOptions_ascending hschema, heq, ?_⟩
  intro v hv
  rw [heq] at hv
  obtain ⟨name, hname, hv⟩ := List.mem_flatMap.mp hv
  exact ⟨name, isAbout_of_mem_optionViolations hv, hname⟩

/-! ### One option taken away -/

/-- What is reported in addition because an option is given or has a rule: the rest is what is
reported without this option and its rule. -/
def AddsViolations (schema? : Option OptionSchema) (options : Options) (name : String)
    (added : List Violation) : Prop :=
  ∃ before after, reported (validateOptions schema? options) = before ++ added ++ after ∧
    reported (validateOptions (withoutOption schema? name) (options.erase name)) = before ++ after

/-- The rules for the other options stay. -/
theorem optionViolations_withoutOption {other : String} (h : other ≠ name) :
    optionViolations (withoutOption schema? name) other given? =
      optionViolations schema? other given? := by
  cases schema? with
  | none => rfl
  | some schema =>
    have hrule : ruleFor? (withoutOption (some schema) name) other =
        ruleFor? (some schema) other := Dict.find?_erase_of_ne h
    unfold optionViolations
    rw [hrule]
    rfl

/-- Nothing is wrong with an option that is neither given nor declared. -/
theorem optionViolations_of_not_mem
    (h : name ∉ undeclaredOptions schema? options ++ declaredOptions schema?) :
    optionViolations schema? name (options.find? name) = [] := by
  rw [List.mem_append, not_or] at h
  have hrule := ruleFor?_eq_none_iff.mpr h.2
  have hgiven : options.find? name = none := by
    by_contra hsome
    obtain ⟨value, hvalue⟩ := Option.ne_none_iff_exists'.mp hsome
    exact h.1 (mem_undeclaredOptions_iff.mpr ⟨⟨value, hvalue⟩, hrule⟩)
  rw [hgiven, optionViolations_none hrule]

/-- What is reported because of an option is what is wrong with it on its own. -/
theorem addsViolations_optionViolations (hschema : ∀ schema ∈ schema?, schema.Ordered)
    (h : options.Ordered) (name : String) :
    AddsViolations schema? options name (optionViolations schema? name (options.find? name)) := by
  have hwithout : ∀ schema ∈ withoutOption schema? name, schema.Ordered := by
    intro schema hmem
    obtain ⟨whole, hwhole, rfl⟩ := Option.map_eq_some_iff.mp hmem
    exact Dict.ordered_erase (hschema whole hwhole) name
  -- without the option the others are listed as before, with the same violations
  obtain ⟨before, after, heq, herased⟩ := exists_flatMap_eq
    (nodup_undeclaredOptions_append hschema h) optionViolations_of_not_mem
    (g := fun other => optionViolations (withoutOption schema? name) other
      ((options.erase name).find? other)) fun other hother => by
        rw [optionViolations_withoutOption hother, Dict.find?_erase_of_ne hother]
  refine ⟨before, after, (reported_validateOptions hschema options).trans heq, ?_⟩
  rw [reported_validateOptions hwithout, undeclaredOptions_withoutOption,
    declaredOptions_withoutOption, ← List.filter_append, herased]

/-! ### Valid options -/

theorem eq_complete_of_validate (h : schema.validate options = .ok completed) :
    completed = schema.complete options := by
  unfold OptionSchema.validate at h
  split at h
  · exact (Except.ok.inj h).symm
  · simp at h

/-- What valid options are completed to, option by option. -/
theorem find?_of_validateOptions_ok (hschema : ∀ schema ∈ schema?, schema.Ordered)
    (h : validateOptions schema? options = .ok completed) (name : String) :
    completed.find? name =
      (ruleFor? schema? name).bind fun rule => (options.find? name).or rule.default? := by
  cases schema? with
  | some schema =>
    rw [eq_complete_of_validate h, find?_complete (hschema schema rfl)]
    rfl
  | none =>
    cases options with
    | nil =>
      obtain rfl : [] = completed := Except.ok.inj h
      rfl
    | cons entry rest => simp [validateOptions] at h

/-! ### Reports -/

/-- Options are valid exactly if each of them has a rule, none is missing and no value is refused.
What is reported is what is wrong with each option, in order and each in its place. Because of one
option the same is reported with any other options around it. Valid options are completed to the
values that are given, or else to the defaults. Without rules each option is refused. -/
theorem validateOptions_reports_each_option (hschema : ∀ schema ∈ schema?, schema.Ordered)
    (hoptions : options.Ordered) :
    ((∃ completed, validateOptions schema? options = .ok completed) ↔
      (∀ name ∈ options.keys, name ∈ declaredOptions schema?) ∧
      ∀ name rule, ruleFor? schema? name = some rule →
        (rule.isRequired = true → name ∈ options.keys) ∧
        ∀ value, options.find? name = some value → rule.check name value = []) ∧
    ReportsEachOption schema? options (reported (validateOptions schema? options)) ∧
    (∀ (name : String) (other : Options), other.Ordered → other.find? name = options.find? name →
      AddsViolations schema? other name (optionViolations schema? name (options.find? name))) ∧
    (∀ completed, validateOptions schema? options = .ok completed → ∀ name,
      completed.find? name =
        (ruleFor? schema? name).bind fun rule => (options.find? name).or rule.default?) ∧
    (schema? = none →
      ((∃ completed, validateOptions schema? options = .ok completed) ↔ options = []) ∧
      reported (validateOptions schema? options) =
        options.keys.map fun name => ⟨name, "transformer does not accept options"⟩) := by
  refine ⟨exists_ok_iff hschema, reportsEachOption hschema hoptions, ?_, ?_, ?_⟩
  · intro name other hother hagree
    rw [← hagree]
    exact addsViolations_optionViolations hschema hother name
  · intro completed h
    exact find?_of_validateOptions_ok hschema h
  · rintro rfl
    cases options <;> simp [validateOptions, reported, Dict.keys]

end Validation

/-- Rules for a truth value, for a dictionary of texts, and for a text that has to be there. -/
def threeRules : OptionSchema :=
  [("newline", OptionRule.boolean.withDefault (.bool true)), ("replacements", OptionRule.stringMap),
    ("text", OptionRule.string.required)]

/-- An option without a rule, one with a field that is refused, and none where one is required. -/
def threeFaults : Options :=
  [("colour", .text "red"), ("replacements", .object [("a/b", .integer 1)])]

theorem threeFaults_reports_each_option :
    (∀ schema ∈ some threeRules, schema.Ordered) ∧ Dict.Ordered threeFaults ∧
    Schema.standardCompiler.PointsInside ∧
    ReportsEachOption (some threeRules) threeFaults
      (reported (validateOptions (some threeRules) threeFaults)) ∧
    (reported (validateOptions (some threeRules) threeFaults)).map Violation.line =
      ["colour: unknown option", "replacements/a~1b: 1 is not of type \"string\"",
        "text: required option is missing"] ∧
    AddsViolations (some threeRules) [("colour", .null)] "text"
      [⟨"text", "required option is missing"⟩] := by
  have hschema : ∀ schema ∈ some threeRules, schema.Ordered := by decide +kernel
  have hoptions : Dict.Ordered threeFaults := by decide +kernel
  obtain ⟨-, hreports, hadds, -⟩ := validateOptions_reports_each_option hschema hoptions
  exact ⟨hschema, hoptions, Schema.pointsInside_standardCompiler, hreports, by decide +kernel,
    hadds "text" [("colour", .null)] (by decide +kernel) rfl⟩

/-! ### Validating once more -/

section Again

variable [Schema.Compiler]

/-- The defaults of options that are left out pass the rules that declare them. -/
def OptionSchema.TakenDefaultsPass (schema : OptionSchema) (options : Options) : Prop :=
  ∀ name rule value, schema.find? name = some rule → options.find? name = none →
    rule.default? = some value → rule.check name value = []

section Completed

variable (hschema : schema.Ordered) (h : validateOptions (some schema) options = .ok completed)

include hschema h

theorem find?_completed (name : String) : completed.find? name =
    (schema.find? name).bind fun rule => (options.find? name).or rule.default? :=
  find?_of_validateOptions_ok (by simpa using hschema) h name

/-- A value of completed options was given and passes its rule, or it is a default that was
taken. -/
theorem exists_rule_of_find?_completed (hvalue : completed.find? name = some value) :
    ∃ rule, schema.find? name = some rule ∧
      (options.find? name = some value ∧ rule.check name value = [] ∨
        options.find? name = none ∧ rule.default? = some value) := by
  obtain ⟨-, hrules⟩ := (exists_ok_iff (by simpa using hschema)).mp ⟨completed, h⟩
  rw [find?_completed hschema h] at hvalue
  obtain ⟨rule, hrule, hvalue⟩ := Option.bind_eq_some_iff.mp hvalue
  refine ⟨rule, hrule, ?_⟩
  rcases Option.or_eq_some_iff.mp hvalue with hgiven | hdefault
  · exact Or.inl ⟨hgiven, (hrules name rule hrule).2 value hgiven⟩
  · exact Or.inr hdefault

/-- Completed options are declared. -/
theorem mem_keys_of_mem_keys_completed (hname : name ∈ completed.keys) : name ∈ schema.keys := by
  obtain ⟨value, hvalue⟩ := Dict.mem_keys_iff.mp hname
  obtain ⟨rule, hrule, -⟩ := exists_rule_of_find?_completed hschema h hvalue
  exact Dict.mem_keys_iff.mpr ⟨rule, hrule⟩

/-- Completed options have all that are required. -/
theorem mem_keys_completed_of_isRequired (hrule : schema.find? name = some rule)
    (hneeded : rule.isRequired = true) : name ∈ completed.keys := by
  obtain ⟨-, hrules⟩ := (exists_ok_iff (by simpa using hschema)).mp ⟨completed, h⟩
  obtain ⟨value, hvalue⟩ := Dict.mem_keys_iff.mp ((hrules name rule hrule).1 hneeded)
  refine Dict.mem_keys_iff.mpr ⟨value, ?_⟩
  rw [find?_completed hschema h, hrule, Option.bind_some, hvalue]
  rfl

/-- The values of completed options pass their rules exactly if the defaults among them do. -/
theorem forall_check_completed_iff :
    (∀ name rule value, completed.find? name = some value → schema.find? name = some rule →
      rule.check name value = []) ↔ schema.TakenDefaultsPass options := by
  constructor
  · intro hall name rule value hrule hnone hdefault
    refine hall name rule value ?_ hrule
    rw [find?_completed hschema h, hrule, Option.bind_some, hnone, hdefault]
    rfl
  · intro hdefaults name rule value hvalue hrule
    obtain ⟨rule', hrule', hcase⟩ := exists_rule_of_find?_completed hschema h hvalue
    obtain rfl : rule = rule' := Option.some_inj.mp (hrule.symm.trans hrule')
    rcases hcase with ⟨-, hcheck⟩ | ⟨hnone, hdefault⟩
    · exact hcheck
    · exact hdefaults name rule value hrule hnone hdefault

/-- Completed options have nothing to complete, so they can only be valid as they are. -/
theorem validateOptions_completed_iff_exists :
    validateOptions (some schema) completed = .ok completed ↔
      ∃ again, validateOptions (some schema) completed = .ok again := by
  refine ⟨fun hok => ⟨completed, hok⟩, fun ⟨again, hok⟩ => ?_⟩
  rw [hok, eq_complete_of_validate hok, eq_complete_of_validate h, complete_complete hschema]

/-- Completed options are valid exactly if their values pass. -/
theorem validateOptions_completed_iff :
    validateOptions (some schema) completed = .ok completed ↔
      ∀ name rule value, completed.find? name = some value → schema.find? name = some rule →
        rule.check name value = [] := by
  rw [validateOptions_completed_iff_exists hschema h, exists_ok_iff (by simpa using hschema)]
  constructor
  · rintro ⟨-, hchecks⟩ name rule value hvalue hrule
    exact (hchecks name rule hrule).2 value hvalue
  · intro hchecks
    exact ⟨fun name => mem_keys_of_mem_keys_completed hschema h, fun name rule hrule =>
      ⟨mem_keys_completed_of_isRequired hschema h hrule,
        fun value hvalue => hchecks name rule value hvalue hrule⟩⟩

end Completed

/-- Valid options are completed to declared options, with all that are required. Each of them has
the value that was given and passes its rule, or the default of an option that was left out. All of
them pass, and are valid again as they are, if and only if the defaults that were taken pass. -/
theorem validateOptions_again_iff (hschema : schema.Ordered)
    (h : validateOptions (some schema) options = .ok completed) :
    (∀ name ∈ completed.keys, name ∈ schema.keys) ∧
    (∀ name rule, schema.find? name = some rule → rule.isRequired = true →
      name ∈ completed.keys) ∧
    (∀ name value, completed.find? name = some value → ∃ rule, schema.find? name = some rule ∧
      (options.find? name = some value ∧ rule.check name value = [] ∨
        options.find? name = none ∧ rule.default? = some value)) ∧
    ((∀ name rule value, completed.find? name = some value → schema.find? name = some rule →
      rule.check name value = []) ↔ schema.TakenDefaultsPass options) ∧
    (validateOptions (some schema) completed = .ok completed ↔
      schema.TakenDefaultsPass options) := by
  refine ⟨fun name => mem_keys_of_mem_keys_completed hschema h,
    fun name rule => mem_keys_completed_of_isRequired hschema h,
    fun name value => exists_rule_of_find?_completed hschema h,
    forall_check_completed_iff hschema h, ?_⟩
  rw [validateOptions_completed_iff hschema h, forall_check_completed_iff hschema h]

end Again

/-- One default is taken, and no other option needs one. -/
theorem threeRules_again :
    Dict.Ordered threeRules ∧
    validateOptions (some threeRules) [("text", .text "a")] =
      .ok [("newline", .bool true), ("text", .text "a")] ∧
    threeRules.TakenDefaultsPass [("text", .text "a")] ∧
    validateOptions (some threeRules) [("newline", .bool true), ("text", .text "a")] =
      .ok [("newline", .bool true), ("text", .text "a")] := by
  have hschema : Dict.Ordered threeRules := by decide +kernel
  have hvalid : violations threeRules [("text", .text "a")] = [] := by decide +kernel
  have hok : validateOptions (some threeRules) [("text", .text "a")] =
      .ok [("newline", .bool true), ("text", .text "a")] := by
    rw [validateOptions, OptionSchema.validate, hvalid]
    rfl
  have hpass : threeRules.TakenDefaultsPass [("text", .text "a")] := by
    intro name rule value hrule hnone hdefault
    have hmem := Dict.mem_of_find? hrule
    simp only [threeRules, List.mem_cons, Prod.mk.injEq, List.not_mem_nil, or_false] at hmem
    rcases hmem with ⟨rfl, rfl⟩ | ⟨rfl, rfl⟩ | ⟨rfl, rfl⟩
    · obtain rfl : Value.bool true = value := Option.some_inj.mp hdefault
      decide +kernel
    · have hwithout : OptionRule.stringMap.default? = none := by decide +kernel
      simp [hwithout] at hdefault
    · exact absurd hnone (Option.some_ne_none _)
  obtain ⟨-, -, -, -, hagain⟩ := validateOptions_again_iff hschema hok
  exact ⟨hschema, hok, hpass, hagain.mpr hpass⟩

/-- A text whose default is a number. -/
def uncheckedDefault : OptionSchema := [("level", OptionRule.string.withDefault (.integer 1))]

/-- A default is taken that the rule refuses as a value. -/
theorem uncheckedDefault_refused_again :
    validateOptions (some uncheckedDefault) [] = .ok [("level", .integer 1)] ∧
    (OptionRule.string.withDefault (.integer 1)).check "level" (.integer 1) ≠ [] ∧
    validateOptions (some uncheckedDefault) [("level", .integer 1)] ≠
      .ok [("level", .integer 1)] := by
  have hcheck : (OptionRule.string.withDefault (.integer 1)).check "level" (.integer 1) ≠ [] := by
    decide +kernel
  refine ⟨rfl, hcheck, fun hagain => hcheck ?_⟩
  obtain ⟨-, hrules⟩ := (exists_ok_iff (by decide +kernel)).mp ⟨_, hagain⟩
  exact (hrules "level" _ rfl).2 _ rfl

end Filewise
