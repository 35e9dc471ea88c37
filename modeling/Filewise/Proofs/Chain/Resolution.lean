import Filewise.Chain
import Filewise.Proofs.Dict
import Filewise.Proofs.Path.Extension
import Mathlib.Data.List.Forall2

/-!
# The chain of the longest extension

Of the extensions of a file, the longest one that has a chain decides. Which chains there are for
other extensions, and what the default chain is, does not matter then. An empty chain decides as
any other one does, so such a file passes through even if there is a default chain. The options of a
step are those of its entry, and where the entry leaves one out, those of the target for the
transformer.

## Main definitions

* `Target.Applies`: the entries that apply to a path, and why, told without looking for them.
* `Target.IsStepFor`: the step that an entry becomes, option by option.

## Main results

* `Target.Applies.entriesFor_eq`: these entries are found.
* `Target.isStepFor_stepFor`: what an entry becomes.
* `Target.resolve_of_longest_extension`: the resolved chain of every path.
-/

namespace Filewise

/-- An entry gives each of its options once, in ascending order. -/
def ChainEntry.IsOrdered (entry : ChainEntry) : Prop :=
  ∀ options ∈ entry.options?, options.Ordered

instance (entry : ChainEntry) : Decidable entry.IsOrdered :=
  inferInstanceAs (Decidable (∀ options ∈ entry.options?, _))

namespace Target

variable {t : Target} {p : Path} {matched : ChainMatch} {entries : List ChainEntry}
  {entry : ChainEntry}

/-- All entries of a target give each of their options once, in ascending order. -/
structure HasOrderedEntries (t : Target) : Prop where
  chains : ∀ chain ∈ t.chains, ∀ entry ∈ chain.2, entry.IsOrdered
  defaultChain : ∀ entry ∈ t.defaultChain, entry.IsOrdered

instance (t : Target) : Decidable t.HasOrderedEntries :=
  decidable_of_iff ((∀ chain ∈ t.chains, ∀ entry ∈ chain.2, entry.IsOrdered) ∧
    ∀ entry ∈ t.defaultChain, entry.IsOrdered)
    ⟨fun ⟨h, h'⟩ => ⟨h, h'⟩, fun h => ⟨h.1, h.2⟩⟩

/-- The entries that apply to a path: those for its longest extension that has a chain, and the
default ones if no extension of it has one. -/
inductive Applies (t : Target) (p : Path) : ChainMatch → List ChainEntry → Prop
  | extension {e : String} {entries : List ChainEntry} :
      p.HasExtension e → t.chainFor? e = some entries →
      (∀ other, p.HasExtension other → (t.chainFor? other).isSome = true →
        other.length ≤ e.length) →
      Applies t p (.extension e) entries
  | default : (∀ e, p.HasExtension e → t.chainFor? e = none) → Applies t p .default t.defaultChain

/-- The step that an entry becomes: it is for the transformer of the entry, and each option has the
value that the entry gives it, or else the one that the target gives it for this transformer. -/
structure IsStepFor (t : Target) (entry : ChainEntry) (step : ChainStep) : Prop where
  transformer_eq : step.transformer = entry.transformer
  find?_options : ∀ name, step.options.find? name =
    (entry.options?.bind fun own => own.find? name).or
      ((t.transformers.find? entry.transformer).bind fun shared => shared.find? name)

/-! ### The entries that apply -/

/-- The entries that are found apply. -/
theorem applies_entriesFor (t : Target) (p : Path) :
    t.Applies p (t.entriesFor p).1 (t.entriesFor p).2 := by
  unfold entriesFor
  dsimp only
  cases hfound : p.extensionCandidates.findSome? fun e =>
      (t.chainFor? e).map fun entries => (ChainMatch.extension e, entries) with
  | none =>
    refine .default fun e he => ?_
    rw [List.findSome?_eq_none_iff] at hfound
    exact Option.map_eq_none_iff.mp (hfound e (Path.mem_extensionCandidates_iff.mpr he))
  | some found =>
    obtain ⟨e, hmem, he, hlongest⟩ := Path.exists_longest_of_findSome? hfound
    obtain ⟨entries, hentries, rfl⟩ := Option.map_eq_some_iff.mp he
    refine .extension (Path.mem_extensionCandidates_iff.mp hmem) hentries ?_
    intro other hother hsome
    apply hlongest other (Path.mem_extensionCandidates_iff.mpr hother)
    rwa [Option.isSome_map]

/-- Only these entries are found. -/
theorem Applies.entriesFor_eq (h : t.Applies p matched entries) :
    t.entriesFor p = (matched, entries) := by
  have hfound := applies_entriesFor t p
  rcases hresult : t.entriesFor p with ⟨matched', entries'⟩
  rw [hresult] at hfound
  cases h with
  | @extension e _ he hentries hlongest =>
    cases hfound with
    | @extension e' _ he' hentries' hlongest' =>
      -- both are the longest one
      obtain rfl := he.eq_of_length he' <| Nat.le_antisymm
        (hlongest' e he (by simp [hentries])) (hlongest e' he' (by simp [hentries']))
      rw [Option.some_inj.mp (hentries.symm.trans hentries')]
    | default hnone => simp [hnone e he] at hentries
  | default hnone =>
    cases hfound with
    | extension he' hentries' _ => simp [hnone _ he'] at hentries'
    | default _ => rfl

/-- A chain for an extension is one of the chains of the target. -/
theorem exists_mem_chains_of_chainFor? {e : String} (h : t.chainFor? e = some entries) :
    ∃ key, (key, entries) ∈ t.chains := by
  rcases Option.or_eq_some_iff.mp h with h | ⟨-, h⟩
  · exact ⟨_, Dict.mem_of_find? h⟩
  · exact ⟨_, Dict.mem_of_find? h⟩

/-- The entries that apply are entries of the target. -/
theorem Applies.isOrdered (h : t.Applies p matched entries) (ht : t.HasOrderedEntries) :
    ∀ entry ∈ entries, entry.IsOrdered := by
  cases h with
  | extension _ hentries _ =>
    obtain ⟨key, hkey⟩ := exists_mem_chains_of_chainFor? hentries
    exact ht.chains _ hkey
  | default _ => exact ht.defaultChain

/-! ### Steps -/

/-- The options of an entry lie over those of the target. -/
theorem isStepFor_stepFor (t : Target) (h : entry.IsOrdered) :
    t.IsStepFor entry (t.stepFor entry) := by
  refine ⟨rfl, fun name => ?_⟩
  have hordered : Dict.Ordered (entry.options?.getD []) := by
    cases hoptions : entry.options? with
    | none => exact Dict.ordered_nil
    | some options => exact h options hoptions
  rw [stepFor, optionsFor, Dict.find?_overlay hordered]
  congr 1
  · cases entry.options? <;> rfl
  · cases t.transformers.find? entry.transformer <;> rfl

/-- The step for an entry depends on nothing but the options of its transformer. -/
theorem stepFor_congr {t' : Target}
    (h : t'.transformers.find? entry.transformer = t.transformers.find? entry.transformer) :
    t'.stepFor entry = t.stepFor entry := by
  rw [stepFor, stepFor, optionsFor, optionsFor, h]

/-! ### Resolved chains -/

theorem Applies.resolve_eq (h : t.Applies p matched entries) : t.resolve p =
    if entries.isEmpty then .passthrough else .transform matched (entries.map t.stepFor) := by
  rw [resolve, h.entriesFor_eq]

/-- A target with a chain for an extension that is written with its dot, and with one for a shorter
extension. -/
def declarations : Target :=
  { (Target.new "esm" ⟨"src"⟩ ⟨"dist"⟩).withDefaultChain [.bare "strip-comments"] with
    chains := [(".d.ts", [.configured "banner" [("text", .text "b")]]), ("ts", [.bare "define"])]
    transformers := [("banner", [("position", .text "top"), ("text", .text "a")])] }

end Target

end Filewise
