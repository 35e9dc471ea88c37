import Filewise.Script.Define
import Mathlib.Data.Finset.Max
import Mathlib.Data.List.Basic
import Mathlib.Tactic.Common

/-!
# Whole names in a script

A name stands at a place of a script if the text there begins with it and nothing before it belongs
to a name or a path. It stands there as a whole if it does not run on. Of all the names that stand
at a place the longest one is tried and no other one, so at each place this name is replaced if it
is whole, and nothing is replaced there otherwise.

A whole name is left alone where a longer one goes on behind it with a dot and runs on.

## Main definitions

* `IsPath`: identifiers and dotted paths of identifiers.
* `IsLongestAt`: the longest name that stands at a place.
* `IsWholeAt`, `IsLongestWholeAt`: a name that stands at a place as a whole, and the longest one.
* `ReplacedAt`: the name that is replaced at a place.
* `ReplacesWhole`: a script in which the longest whole names are replaced, and nothing else.

## Main results

* `replacedAt_pieces_iff`: which names are replaced.
* `replaceNames_replaces_whole_iff`: when the longest whole names are replaced.
-/

namespace Filewise.Script

/-! ### Names at places -/

/-- The characters of identifiers and of dotted paths. -/
def isPathChar (c : Char) : Bool :=
  Text.isAsciiLetter c || c.isDigit || c == '_' || c == '$' || c == '.'

/-- Names made of the characters of identifiers and of dotted paths, among them all identifiers
and dotted paths of identifiers. -/
def IsPath (name : String) : Prop := name ≠ "" ∧ ∀ c ∈ name.toList, isPathChar c = true

instance (name : String) : Decidable (IsPath name) :=
  decidable_of_iff (name ≠ "" ∧ name.toList.all isPathChar = true) (by simp [IsPath])

/-- Nothing that stands right before a place belongs to a name or a path. -/
def AtBoundary (before : List Char) : Prop :=
  ∀ c, before.getLast? = some c → isNameBoundary c = true

/-- The longest of the names with which a text begins. -/
structure IsLongestStart (names : List String) (rest : List Char) (name : String) : Prop where
  mem : name ∈ names
  isPrefix : name.toList <+: rest
  longest : ∀ other ∈ names, other.toList <+: rest → other.length ≤ name.length

/-- The longest of the names that stand at a place. -/
structure IsLongestAt (names : List String) (before rest : List Char) (name : String) : Prop
    extends IsLongestStart names rest name where
  boundary : AtBoundary before

/-- A name goes on with another character of an identifier. -/
def RunsOn (rest : List Char) (name : String) : Prop :=
  (rest.drop name.length).head?.any Text.isIdentifierChar = true

instance (rest : List Char) (name : String) : Decidable (RunsOn rest name) :=
  inferInstanceAs (Decidable (_ = true))

/-- A name stands at a place as a whole. -/
structure IsWholeAt (before rest : List Char) (name : String) : Prop where
  boundary : AtBoundary before
  isPrefix : name.toList <+: rest
  ends : ¬RunsOn rest name

/-- The longest of the names that stand at a place as a whole. -/
structure IsLongestWholeAt (names : List String) (before rest : List Char) (name : String) : Prop
    extends IsWholeAt before rest name where
  mem : name ∈ names
  longest : ∀ other ∈ names, IsWholeAt before rest other → other.length ≤ name.length

/-- The text that a piece stands for. -/
def Piece.chars : Piece → List Char
  | .char c => [c]
  | .name key _ => key.toList

/-- A name is replaced where the pieces before it end. -/
def ReplacedAt (found : List Piece) (before : List Char) (name : String) : Prop :=
  ∃ earlier later, found = earlier ++ .name name true :: later ∧
    earlier.flatMap Piece.chars = before

/-- A script cut into pieces, of which those are replaced that are the longest whole names at their
places. -/
structure ReplacesWhole (names : List String) (text : List Char) (found : List Piece) : Prop where
  chars_eq : found.flatMap Piece.chars = text
  replacedAt_iff : ∀ before rest name, text = before ++ rest →
    (ReplacedAt found before name ↔ IsLongestWholeAt names before rest name)

variable {names : List String} {name other : String} {before rest text : List Char}
  {found : List Piece} {c : Char}

/-! ### Characters -/

/-- The characters of paths are ASCII. -/
theorem toNat_lt_of_isPathChar (h : isPathChar c = true) : c.toNat < 128 := by
  simp only [isPathChar, Text.isAsciiLetter, Char.isDigit, Bool.or_eq_true, Bool.and_eq_true,
    decide_eq_true_eq, beq_iff_eq, Char.le_def, UInt32.le_iff_toNat_le] at h
  rcases h with ((((⟨-, h⟩ | ⟨-, h⟩) | ⟨-, h⟩) | rfl) | rfl) | rfl
  · exact Nat.lt_of_le_of_lt h (by decide)
  · exact Nat.lt_of_le_of_lt h (by decide)
  · exact Nat.lt_of_le_of_lt h (by decide)
  all_goals decide

/-- No name begins after a character of a path, and only a dot does not go on with an
identifier. -/
theorem of_isPathChar (h : isPathChar c = true) :
    isNameBoundary c = false ∧ (c = '.' ∨ Text.isIdentifierChar c = true) := by
  have hall : ∀ n < 128, isPathChar (Char.ofNat n) = true →
      isNameBoundary (Char.ofNat n) = false ∧
        (Char.ofNat n = '.' ∨ Text.isIdentifierChar (Char.ofNat n) = true) := by
    decide +kernel
  have hc := hall c.toNat (toNat_lt_of_isPathChar h)
  rw [Char.ofNat_toNat] at hc
  exact hc h

theorem IsPath.toList_ne_nil (h : IsPath name) : name.toList ≠ [] := by
  simpa using h.1

/-- No name begins in another one, nor right behind it. -/
theorem not_atBoundary_of_isPath (h : IsPath name) {start : List Char} (hstart : start ≠ [])
    (hpre : start <+: name.toList) (before : List Char) : ¬AtBoundary (before ++ start) := by
  intro hboundary
  have hlast := hboundary (start.getLast hstart) (by
    rw [List.getLast?_append, List.getLast?_eq_some_getLast hstart, Option.some_or])
  rw [(of_isPathChar (h.2 _ (hpre.subset (List.getLast_mem hstart)))).1] at hlast
  simp at hlast

/-- Whether a name can begin depends on the last character. -/
theorem atBoundary_append (before : List Char) (hrest : rest ≠ []) :
    AtBoundary (before ++ rest) ↔ AtBoundary rest := by
  rw [AtBoundary, AtBoundary, List.getLast?_append, List.getLast?_eq_some_getLast hrest,
    Option.some_or]

theorem atBoundary_singleton : AtBoundary [c] ↔ isNameBoundary c = true := by
  simp [AtBoundary]

/-! ### The longest name -/

theorem dropStart?_append (start rest : List Char) :
    dropStart? start (start ++ rest) = some rest := by
  induction start with
  | nil => simp [dropStart?]
  | cons c start ih => simpa [dropStart?] using ih

theorem dropStart?_eq_none_iff {start text : List Char} :
    dropStart? start text = none ↔ ¬start <+: text := by
  constructor
  · rintro hnone ⟨rest, rfl⟩
    simp [dropStart?_append] at hnone
  · intro hpre
    by_contra hsome
    obtain ⟨rest, hrest⟩ := Option.ne_none_iff_exists'.mp hsome
    exact hpre ⟨rest, (eq_append_of_dropStart? hrest).symm⟩

/-- Of two beginnings of a text, the longer one goes on where the shorter one ends. -/
theorem exists_append_of_isPrefix (h : name.toList <+: text) (h' : other.toList <+: text)
    (hlength : name.length ≤ other.length) : ∃ more, other.toList = name.toList ++ more := by
  obtain ⟨more, hmore⟩ := List.prefix_of_prefix_length_le h h' <| by
    rwa [String.length_toList, String.length_toList]
  exact ⟨more, hmore.symm⟩

/-- Beginnings of a text with the same length are the same. -/
theorem eq_of_isPrefix (h : name.toList <+: text) (h' : other.toList <+: text)
    (hlength : name.length = other.length) : name = other := by
  obtain ⟨more, hmore⟩ := exists_append_of_isPrefix h h' hlength.le
  have hnil : more = [] := by
    have := congrArg List.length hmore
    simp only [List.length_append, String.length_toList] at this
    exact List.eq_nil_of_length_eq_zero (by omega)
  rw [hnil, List.append_nil] at hmore
  exact (String.toList_inj.mp hmore).symm

/-- A beginning of a text that is tried before another one is at least as long. -/
theorem length_le_of_triedBefore (hname : name.toList <+: text) (hother : other.toList <+: text)
    (h : triedBefore name other = true) : other.length ≤ name.length := by
  by_contra! hlt
  obtain ⟨more, hmore⟩ := exists_append_of_isPrefix hname hother hlt.le
  have hne : String.ofList more ≠ "" := by
    intro hempty
    have hnil : more = [] := by simpa using congrArg String.toList hempty
    rw [hnil, List.append_nil] at hmore
    rw [String.toList_inj.mp hmore] at hlt
    exact Nat.lt_irrefl _ hlt
  have hsplit : other = name ++ String.ofList more := by
    rw [← String.toList_inj, hmore, String.toList_append, String.toList_ofList]
  have hpos : 0 < (String.ofList more).utf8ByteSize := by
    rw [Nat.pos_iff_ne_zero, ne_eq, String.utf8ByteSize_eq_zero_iff]
    exact hne
  rw [hsplit, triedBefore] at h
  simp only [String.utf8ByteSize_append, Bool.or_eq_true, decide_eq_true_eq, Bool.and_eq_true,
    beq_iff_eq] at h
  omega

theorem triedBefore_trans (a b c : String) (h : triedBefore a b = true)
    (h' : triedBefore b c = true) : triedBefore a c = true := by
  simp only [triedBefore, Bool.or_eq_true, decide_eq_true_eq, Bool.and_eq_true,
    beq_iff_eq] at h h' ⊢
  rcases h with h | ⟨h, hle⟩ <;> rcases h' with h' | ⟨h', hle'⟩
  · exact Or.inl (by omega)
  · exact Or.inl (by omega)
  · exact Or.inl (by omega)
  · exact Or.inr ⟨by omega, String.le_trans hle hle'⟩

theorem triedBefore_total (a b : String) : (triedBefore a b || triedBefore b a) = true := by
  simp only [triedBefore, Bool.or_eq_true, decide_eq_true_eq, Bool.and_eq_true, beq_iff_eq]
  rcases Nat.lt_trichotomy a.utf8ByteSize b.utf8ByteSize with h | h | h
  · exact Or.inr (Or.inl h)
  · rcases String.le_total a b with hle | hle
    · exact Or.inl (Or.inr ⟨h, hle⟩)
    · exact Or.inr (Or.inr ⟨h.symm, hle⟩)
  · exact Or.inl (Or.inl h)

/-- The first name that is tried and found is the longest one with which the text begins. -/
theorem isLongestStart_of_firstName? {replacements : Dict String}
    (h : firstName? (orderedNames replacements) text = some (name, rest)) :
    IsLongestStart replacements.keys text name ∧ text = name.toList ++ rest := by
  obtain ⟨earlier, found, later, hnames, hfound, hearlier⟩ := List.findSome?_eq_some_iff.mp h
  obtain ⟨rest', hdrop, heq⟩ := Option.map_eq_some_iff.mp hfound
  obtain ⟨rfl, rfl⟩ := Prod.mk.inj heq
  have htext := eq_append_of_dropStart? hdrop
  have hmem : ∀ other, other ∈ replacements.keys ↔ other ∈ earlier ++ found :: later := by
    intro other
    rw [← hnames, orderedNames, List.mem_mergeSort]
  have hsorted : (earlier ++ found :: later).Pairwise (triedBefore · · = true) :=
    hnames ▸ List.pairwise_mergeSort triedBefore_trans triedBefore_total _
  have hfirst : found.toList <+: text := ⟨rest', htext.symm⟩
  refine ⟨⟨(hmem found).mpr (by simp), hfirst, fun other hother hpre => ?_⟩, htext⟩
  rcases List.mem_append.mp ((hmem other).mp hother) with hother | hother
  · -- the names that are tried before are not there
    have hnone := Option.map_eq_none_iff.mp (hearlier other hother)
    exact absurd hpre (dropStart?_eq_none_iff.mp hnone)
  · rcases List.mem_cons.mp hother with rfl | hother
    · exact Nat.le_refl _
    · exact length_le_of_triedBefore hfirst hpre
        ((List.pairwise_cons.mp (List.pairwise_append.mp hsorted).2.1).1 other hother)

/-- Only one name is the longest. -/
theorem IsLongestStart.unique (h : IsLongestStart names text name)
    (h' : IsLongestStart names text other) : name = other :=
  eq_of_isPrefix h.isPrefix h'.isPrefix
    (Nat.le_antisymm (h'.longest name h.mem h.isPrefix) (h.longest other h'.mem h'.isPrefix))

/-- Nothing is found if the text begins with none of the names. -/
theorem firstName?_eq_none_iff {replacements : Dict String} :
    firstName? (orderedNames replacements) text = none ↔
      ∀ name ∈ replacements.keys, ¬name.toList <+: text := by
  simp [firstName?, orderedNames, List.mem_mergeSort, dropStart?_eq_none_iff]

/-- The longest name with which a text begins is found. -/
theorem firstName?_eq_some_iff {replacements : Dict String} :
    firstName? (orderedNames replacements) text = some (name, rest) ↔
      IsLongestStart replacements.keys text name ∧ text = name.toList ++ rest := by
  refine ⟨isLongestStart_of_firstName?, fun ⟨h, htext⟩ => ?_⟩
  cases hfirst : firstName? (orderedNames replacements) text with
  | none => exact absurd h.isPrefix (firstName?_eq_none_iff.mp hfirst name h.mem)
  | some found =>
    obtain ⟨name', rest'⟩ := found
    obtain ⟨h', htext'⟩ := isLongestStart_of_firstName? hfirst
    obtain rfl := h.unique h'
    rw [List.append_cancel_left (htext.symm.trans htext')]

/-! ### Replaced places -/

theorem not_replacedAt_nil : ¬ReplacedAt [] before name := by
  rintro ⟨earlier, later, h, -⟩
  simp at h

/-- What is replaced behind a piece. -/
theorem replacedAt_cons {piece : Piece} : ReplacedAt (piece :: found) before name ↔
    before = [] ∧ piece = .name name true ∨
      ∃ after, before = piece.chars ++ after ∧ ReplacedAt found after name := by
  constructor
  · rintro ⟨earlier, later, hfound, rfl⟩
    rcases earlier with _ | ⟨first, earlier⟩
    · exact Or.inl ⟨rfl, (List.cons.inj hfound).1⟩
    · obtain ⟨rfl, rfl⟩ := List.cons.inj hfound
      exact Or.inr ⟨_, List.flatMap_cons, earlier, later, rfl, rfl⟩
  · rintro (⟨rfl, rfl⟩ | ⟨after, rfl, earlier, later, rfl, rfl⟩)
    · exact ⟨[], found, rfl, rfl⟩
    · exact ⟨piece :: earlier, later, rfl, List.flatMap_cons⟩

theorem replacedAt_char : ReplacedAt (.char c :: found) before name ↔
    ∃ after, before = c :: after ∧ ReplacedAt found after name := by
  simp [replacedAt_cons, Piece.chars]

theorem drop_length (name : String) (rest : List Char) :
    (name.toList ++ rest).drop name.length = rest := by
  rw [← String.length_toList, List.drop_left]

/-- An occurrence is replaced unless it runs on. -/
theorem occurrence_eq (name : String) (rest : List Char) :
    occurrence name rest = .name name (decide ¬RunsOn (name.toList ++ rest) name) := by
  simp [occurrence, RunsOn, drop_length]

/-- What is replaced at an occurrence of a name or behind it. -/
theorem replacedAt_occurrence {key : String} :
    ReplacedAt (occurrence key rest :: found) before name ↔
      before = [] ∧ key = name ∧ ¬RunsOn (key.toList ++ rest) key ∨
        ∃ after, before = key.toList ++ after ∧ ReplacedAt found after name := by
  rw [occurrence_eq, replacedAt_cons, Piece.chars, Piece.name.injEq, decide_eq_true_iff]

/-! ### Pieces of a script -/

variable {replacements : Dict String}

/-- The longest name that stands at a place is there as a whole. -/
def IsReplaceable (names : List String) (before rest : List Char) (name : String) : Prop :=
  IsLongestAt names before rest name ∧ ¬RunsOn rest name

/-- In a name and right behind it nothing is replaced. -/
theorem not_isReplaceable_of_isPath {key : String} (h : IsPath key) {start : List Char}
    (hstart : start ≠ []) (hpre : start <+: key.toList) (before : List Char) :
    ¬IsReplaceable names (before ++ start) rest name :=
  fun hname => not_atBoundary_of_isPath h hstart hpre before hname.1.boundary

/-- What can be replaced at a place depends on the character before it. -/
theorem isReplaceable_append (before : List Char) {after : List Char} (hafter : after ≠ []) :
    IsReplaceable names (before ++ after) rest name ↔ IsReplaceable names after rest name := by
  constructor <;> rintro ⟨⟨hstart, hboundary⟩, hends⟩
  · exact ⟨⟨hstart, (atBoundary_append before hafter).mp hboundary⟩, hends⟩
  · exact ⟨⟨hstart, (atBoundary_append before hafter).mpr hboundary⟩, hends⟩

/-- What can be replaced right behind a character. -/
theorem isReplaceable_singleton : IsReplaceable names [c] rest name ↔
    isNameBoundary c = true ∧ IsLongestStart names rest name ∧ ¬RunsOn rest name := by
  constructor
  · rintro ⟨⟨hstart, hboundary⟩, hends⟩
    exact ⟨atBoundary_singleton.mp hboundary, hstart, hends⟩
  · rintro ⟨hboundary, hstart, hends⟩
    exact ⟨⟨hstart, atBoundary_singleton.mpr hboundary⟩, hends⟩

theorem chars_piecesAfterStart (names : List String) (text : List Char) :
    (piecesAfterStart names text).flatMap Piece.chars = text := by
  fun_induction piecesAfterStart names text with
  | case1 => rfl
  | case2 c rest hc name rest' hfirst ih =>
    obtain ⟨_, _, hname⟩ := List.exists_of_findSome?_eq_some hfirst
    obtain ⟨_, hdrop, heq⟩ := Option.map_eq_some_iff.mp hname
    obtain ⟨rfl, rfl⟩ := Prod.mk.inj heq
    simp [Piece.chars, occurrence, ih, eq_append_of_dropStart? hdrop]
  | case3 c rest hc hfirst ih => simp [Piece.chars, ih]
  | case4 c rest hc ih => simp [Piece.chars, ih]

/-- Nothing is replaced right behind a character that no name may follow. -/
theorem not_isReplaceable_of_boundary_eq_false (hc : isNameBoundary c = false) :
    ¬IsReplaceable names [c] rest name := by
  rw [isReplaceable_singleton, hc]
  simp

/-- Behind a character the search goes on as at the start. -/
theorem cons_isReplaceable_iff (hsingle : before = [] → ¬IsReplaceable names [c] rest name) :
    IsReplaceable names (c :: before) rest name ↔
      before ≠ [] ∧ IsReplaceable names before rest name := by
  by_cases hbefore : before = []
  · simp [hbefore, hsingle hbefore]
  · simp only [ne_eq, hbefore, not_false_eq_true, true_and]
    exact isReplaceable_append [c] hbefore

/-- What is replaced at the place of a name. -/
theorem replacedAt_occurrence_nil {key : String} (hpath : IsPath key)
    (hkey : IsLongestStart names (key.toList ++ rest) key) :
    ReplacedAt (occurrence key rest :: found) [] name ↔
      IsLongestStart names (key.toList ++ rest) name ∧ ¬RunsOn (key.toList ++ rest) name := by
  rw [replacedAt_occurrence]
  constructor
  · rintro (⟨-, rfl, hends⟩ | ⟨after, hafter, -⟩)
    · exact ⟨hkey, hends⟩
    · exact absurd (List.append_eq_nil_iff.mp hafter.symm).1 hpath.toList_ne_nil
  · rintro ⟨hname, hends⟩
    obtain rfl := hkey.unique hname
    exact Or.inl ⟨rfl, rfl, hends⟩

/-- What is replaced in a name or further on, if the longest whole names are replaced further
on. -/
theorem replacedAt_occurrence_iff {key : String} {later : List Char} (hpath : IsPath key)
    (hbefore : before ≠ []) (htext : key.toList ++ later = before ++ rest)
    (hfound : ∀ after, later = after ++ rest →
      (ReplacedAt found after name ↔ after ≠ [] ∧ IsReplaceable names after rest name)) :
    ReplacedAt (occurrence key later :: found) before name ↔
      IsReplaceable names before rest name := by
  simp only [replacedAt_occurrence, hbefore, false_and, false_or]
  rcases List.prefix_or_prefix_of_prefix ⟨rest, htext.symm⟩ (List.prefix_append key.toList later)
    with hpre | ⟨after, rfl⟩
  · -- the place is in the name or right behind it
    constructor
    · rintro ⟨after, rfl, hreplaced⟩
      obtain rfl : after = [] := List.eq_nil_of_length_eq_zero <| by
        have := hpre.length_le
        rw [List.length_append] at this
        omega
      exact absurd rfl ((hfound [] (by simpa using htext)).mp hreplaced).1
    · exact fun h => absurd h (not_isReplaceable_of_isPath hpath hbefore hpre [])
  · rw [List.append_assoc, List.append_cancel_left_eq] at htext
    simp only [List.append_cancel_left_eq, exists_eq_left', hfound after htext]
    by_cases hafter : after = []
    · subst hafter
      have hnot : ¬IsReplaceable names ([] ++ key.toList) rest name :=
        not_isReplaceable_of_isPath hpath hpath.toList_ne_nil List.prefix_rfl []
      simpa using hnot
    · simp [isReplaceable_append _ hafter, hafter]

/-- Behind the start of a text the longest names are replaced that are whole. -/
theorem replacedAt_piecesAfterStart_iff (hnames : ∀ name ∈ replacements.keys, IsPath name)
    (htext : text = before ++ rest) :
    ReplacedAt (piecesAfterStart (orderedNames replacements) text) before name ↔
      before ≠ [] ∧ IsReplaceable replacements.keys before rest name := by
  fun_induction piecesAfterStart (orderedNames replacements) text generalizing before with
  | case1 =>
    obtain ⟨rfl, -⟩ := List.append_eq_nil_iff.mp htext.symm
    simp [not_replacedAt_nil]
  | case2 c more hc key later hfirst ih =>
    -- a name stands behind the character
    obtain ⟨hkey, rfl⟩ := firstName?_eq_some_iff.mp hfirst
    have hpath := hnames key hkey.mem
    rw [replacedAt_char]
    rcases before with _ | ⟨c', before⟩
    · simp
    obtain ⟨rfl, hmore : key.toList ++ later = before ++ rest⟩ := List.cons.inj htext
    simp only [List.cons.injEq, true_and, exists_eq_left', ne_eq, reduceCtorEq, not_false_eq_true]
    by_cases hbefore : before = []
    · subst hbefore
      rw [List.nil_append] at hmore
      rw [isReplaceable_singleton, ← hmore, replacedAt_occurrence_nil hpath hkey]
      simp [hc]
    · rw [replacedAt_occurrence_iff hpath hbefore hmore fun after => ih]
      exact (isReplaceable_append [c] hbefore).symm
  | case3 c more hc hfirst ih =>
    rw [replacedAt_char]
    rcases before with _ | ⟨c', before⟩
    · simp
    obtain ⟨rfl, hmore : more = before ++ rest⟩ := List.cons.inj htext
    rw [cons_isReplaceable_iff fun hbefore h => ?_]
    · simp [ih hmore]
    · -- no name stands behind the character
      rw [isReplaceable_singleton] at h
      rw [hbefore, List.nil_append] at hmore
      exact firstName?_eq_none_iff.mp hfirst name h.2.1.mem (hmore ▸ h.2.1.isPrefix)
  | case4 c more hc ih =>
    -- no name may follow the character
    rw [replacedAt_char]
    rcases before with _ | ⟨c', before⟩
    · simp
    obtain ⟨rfl, hmore : more = before ++ rest⟩ := List.cons.inj htext
    rw [cons_isReplaceable_iff fun _ => not_isReplaceable_of_boundary_eq_false (by simpa using hc)]
    simp [ih hmore]

/-- The pieces of a script that begins with a name. -/
theorem pieces_of_firstName? {key : String} {later : List Char} (hkey : key ≠ "")
    (hfirst : firstName? names text = some (key, later)) :
    pieces names text = occurrence key later :: piecesAfterStart names later := by
  have hempty : key.isEmpty = false := by simpa [String.isEmpty_iff] using hkey
  simp [pieces, hfirst, hempty]

theorem pieces_of_firstName?_eq_none (hfirst : firstName? names text = none) :
    pieces names text = piecesAfterStart names text := by
  simp [pieces, hfirst]

/-- A name is replaced exactly where it is the longest one that stands there and is whole. -/
theorem replacedAt_pieces_iff (hnames : ∀ name ∈ replacements.keys, IsPath name)
    (htext : text = before ++ rest) :
    ReplacedAt (pieces (orderedNames replacements) text) before name ↔
      IsReplaceable replacements.keys before rest name := by
  have hstart : IsReplaceable replacements.keys [] rest name ↔
      IsLongestStart replacements.keys rest name ∧ ¬RunsOn rest name :=
    ⟨fun h => ⟨h.1.toIsLongestStart, h.2⟩, fun h => ⟨⟨h.1, by simp [AtBoundary]⟩, h.2⟩⟩
  cases hfirst : firstName? (orderedNames replacements) text with
  | none =>
    rw [pieces_of_firstName?_eq_none hfirst, replacedAt_piecesAfterStart_iff hnames htext]
    by_cases hbefore : before = []
    · -- no name stands at the start
      subst hbefore htext
      simp only [ne_eq, not_true_eq_false, false_and, hstart, false_iff]
      rintro ⟨hname, -⟩
      exact firstName?_eq_none_iff.mp hfirst name hname.mem hname.isPrefix
    · simp [hbefore]
  | some found =>
    obtain ⟨key, later⟩ := found
    obtain ⟨hkey, rfl⟩ := firstName?_eq_some_iff.mp hfirst
    have hpath := hnames key hkey.mem
    rw [pieces_of_firstName? hpath.1 hfirst]
    by_cases hbefore : before = []
    · subst hbefore
      rw [List.nil_append] at htext
      rw [hstart, ← htext, replacedAt_occurrence_nil hpath hkey]
    · exact replacedAt_occurrence_iff hpath hbefore htext fun after =>
        replacedAt_piecesAfterStart_iff hnames

/-- The pieces make up the script. -/
theorem chars_pieces (hnames : ∀ name ∈ replacements.keys, IsPath name) (text : List Char) :
    (pieces (orderedNames replacements) text).flatMap Piece.chars = text := by
  cases hfirst : firstName? (orderedNames replacements) text with
  | none => rw [pieces_of_firstName?_eq_none hfirst, chars_piecesAfterStart]
  | some found =>
    obtain ⟨hkey, htext⟩ := firstName?_eq_some_iff.mp hfirst
    rw [pieces_of_firstName? (hnames _ hkey.mem).1 hfirst, List.flatMap_cons,
      chars_piecesAfterStart, htext]
    rfl

/-- Without names nothing changes. -/
theorem piecesAfterStart_nil (text : List Char) :
    piecesAfterStart [] text = text.map Piece.char := by
  fun_induction piecesAfterStart [] text with
  | case1 => rfl
  | case2 c rest hc name rest' hfirst => simp [firstName?] at hfirst
  | case3 c rest hc hfirst ih => rw [ih, List.map_cons]
  | case4 c rest hc ih => rw [ih, List.map_cons]

/-- A script becomes what its pieces become. -/
theorem replaceNames_eq_render (replacements : Dict String) (text : String) :
    replaceNames replacements text = String.ofList
      ((pieces (orderedNames replacements) text.toList).flatMap (·.render replacements)) := by
  rw [replaceNames]
  split
  · next hempty =>
    have hnames : orderedNames replacements = [] := by
      simp [List.isEmpty_iff.mp hempty, orderedNames, Dict.keys]
    rw [hnames, pieces_of_firstName?_eq_none (by simp [firstName?]), piecesAfterStart_nil,
      List.flatMap_map]
    simp [Piece.render]
  · rfl

/-! ### The longest whole names -/

/-- Among names with a property there is a longest one. -/
theorem exists_longest {p : String → Prop} (h : ∃ name ∈ names, p name) :
    ∃ name ∈ names, p name ∧ ∀ other ∈ names, p other → other.length ≤ name.length := by
  classical
  obtain ⟨name, hname, hp⟩ := h
  obtain ⟨longest, hlongest, hmax⟩ := (names.toFinset.filter p).exists_max_image String.length
    ⟨name, by simp [hname, hp]⟩
  simp only [Finset.mem_filter, List.mem_toFinset] at hlongest hmax
  exact ⟨longest, hlongest.1, hlongest.2, fun other hother hp => hmax other ⟨hother, hp⟩⟩

/-- A name that stands at a place lets a longest one stand there. -/
theorem IsWholeAt.exists_isLongestAt (h : IsWholeAt before rest name) (hname : name ∈ names) :
    ∃ longest, IsLongestAt names before rest longest := by
  obtain ⟨longest, hmem, hpre, hlongest⟩ := exists_longest
    (p := fun key : String => key.toList <+: rest) ⟨name, hname, h.isPrefix⟩
  exact ⟨longest, ⟨hmem, hpre, hlongest⟩, h.boundary⟩

/-- At a place of whole names there is a longest one. -/
theorem IsWholeAt.exists_isLongestWholeAt (h : IsWholeAt before rest name)
    (hname : name ∈ names) : ∃ longest, IsLongestWholeAt names before rest longest := by
  obtain ⟨longest, hmem, hwhole, hlongest⟩ := exists_longest ⟨name, hname, h⟩
  exact ⟨longest, hwhole, hmem, hlongest⟩

/-- The longest name at a place is the longest whole one if it is whole. -/
theorem IsReplaceable.isLongestWholeAt (h : IsReplaceable names before rest name) :
    IsLongestWholeAt names before rest name :=
  ⟨⟨h.1.boundary, h.1.isPrefix, h.2⟩, h.1.mem, fun other hother hwhole =>
    h.1.longest other hother hwhole.isPrefix⟩

/-- Where names are whole, the longest one that stands there is whole too. -/
def LongestAreWhole (names : List String) (text : List Char) : Prop :=
  ∀ before rest name key, text = before ++ rest → IsLongestAt names before rest name →
    key ∈ names → IsWholeAt before rest key → ¬RunsOn rest name

/-- The longest whole names are replaced if the longest names at their places are whole. -/
theorem replacesWhole_pieces_iff (hnames : ∀ name ∈ replacements.keys, IsPath name)
    (text : List Char) :
    ReplacesWhole replacements.keys text (pieces (orderedNames replacements) text) ↔
      LongestAreWhole replacements.keys text := by
  constructor
  · intro h before rest name key htext hname hkey hwhole
    obtain ⟨longest, hlongest⟩ := hwhole.exists_isLongestWholeAt hkey
    have hreplaced := (replacedAt_pieces_iff hnames htext).mp
      ((h.replacedAt_iff before rest longest htext).mpr hlongest)
    rw [hname.toIsLongestStart.unique hreplaced.1.toIsLongestStart]
    exact hreplaced.2
  · refine fun h => ⟨chars_pieces hnames text, fun before rest name htext => ?_⟩
    rw [replacedAt_pieces_iff hnames htext]
    refine ⟨IsReplaceable.isLongestWholeAt, fun hname => ?_⟩
    -- the longest name is whole, so it is the longest whole one
    obtain ⟨longest, hlongest⟩ := hname.exists_isLongestAt hname.mem
    have hends := h before rest longest name htext hlongest hname.mem hname.toIsWholeAt
    have hlength := hname.longest longest hlongest.mem
      ⟨hlongest.boundary, hlongest.isPrefix, hends⟩
    obtain rfl := eq_of_isPrefix hname.isPrefix hlongest.isPrefix
      (Nat.le_antisymm (hlongest.longest name hname.mem hname.isPrefix) hlength)
    exact ⟨hlongest, hends⟩

/-- A path goes on with a dot and more. -/
def Continues (name longer : String) : Prop := name.toList ++ ['.'] <+: longer.toList

instance (name longer : String) : Decidable (Continues name longer) :=
  inferInstanceAs (Decidable (_ <+: _))

/-- A whole name is a part of a longer one that runs on only if that goes on with a dot. -/
theorem continues_of_runsOn {longer : String} (hlonger : IsPath longer)
    (hname : name.toList <+: rest) (hends : ¬RunsOn rest name) (hpre : longer.toList <+: rest)
    (hruns : RunsOn rest longer) (hlength : name.length ≤ longer.length) :
    Continues name longer := by
  obtain ⟨more, hmore⟩ := exists_append_of_isPrefix hname hpre hlength
  obtain ⟨after, rfl⟩ := hpre
  rcases more with _ | ⟨c, more⟩
  · rw [List.append_nil, String.toList_inj] at hmore
    exact absurd (hmore ▸ hruns) hends
  · have hchar : Text.isIdentifierChar c ≠ true := by
      rw [RunsOn, hmore, List.append_assoc, drop_length] at hends
      simpa using hends
    have hpath := hlonger.2 c (by simp [hmore])
    rcases (of_isPathChar hpath).2 with rfl | hidentifier
    · exact ⟨more, by simp [hmore]⟩
    · exact absurd hidentifier hchar

/-- The longest names are whole in all texts if and only if no name continues another one. -/
theorem longestAreWhole_iff (hnames : ∀ name ∈ names, IsPath name) :
    (∀ text, LongestAreWhole names text) ↔
      ∀ name ∈ names, ∀ longer ∈ names, ¬Continues name longer := by
  constructor
  · intro h name hname longer hlonger hcontinues
    -- the longest name that continues this one, with a letter behind it
    obtain ⟨longest, hmem, hlongest, hmax⟩ := exists_longest (p := Continues name)
      ⟨longer, hlonger, hcontinues⟩
    obtain ⟨more, hmore⟩ := hlongest
    have htext : longest.toList ++ ['x'] = name.toList ++ '.' :: (more ++ ['x']) := by
      simp [← hmore]
    have hruns : RunsOn (longest.toList ++ ['x']) longest := by
      rw [RunsOn, drop_length]
      decide +kernel
    refine h (longest.toList ++ ['x']) [] _ longest name rfl
      ⟨⟨hmem, List.prefix_append _ _, fun other hother hpre => ?_⟩, by simp [AtBoundary]⟩ hname
      ⟨by simp [AtBoundary], ⟨_, htext.symm⟩, fun hruns => ?_⟩ hruns
    · by_contra! hlt
      -- a longer one would continue the name too
      obtain ⟨rest, hrest⟩ := exists_append_of_isPrefix (List.prefix_append _ _) hpre hlt.le
      exact Nat.not_lt.mpr (hmax other hother ⟨more ++ rest, by rw [hrest, ← hmore]; simp⟩) hlt
    · have hdot : Text.isIdentifierChar '.' = false := by decide +kernel
      simp [RunsOn, htext, drop_length, hdot] at hruns
  · intro h text before rest name key _ hname hkey hwhole hruns
    exact h key hkey name hname.mem (continues_of_runsOn (hnames name hname.mem) hwhole.isPrefix
      hwhole.ends hname.isPrefix hruns (hname.longest key hkey hwhole.isPrefix))

/-- No name is found behind the start where no character comes before a name. -/
theorem piecesAfterStart_of_isNameBoundary_eq_false {names : List String} {text : List Char}
    (h : text.any isNameBoundary = false) : piecesAfterStart names text = text.map .char := by
  induction text with
  | nil => rw [piecesAfterStart, List.map_nil]
  | cons c rest ih =>
    rw [List.any_cons, Bool.or_eq_false_iff] at h
    rw [piecesAfterStart, h.1, ih h.2]
    simp

/-- In a script with its names replaced, those have been replaced that are the longest ones at
their places and are whole. They are the longest whole names if the longest names are whole wherever
names are whole. This is so in all scripts if and only if no name continues another one. -/
theorem replaceNames_replaces_whole_iff (hnames : ∀ name ∈ replacements.keys, IsPath name) :
    (∀ text : String, ∃ found,
      replaceNames replacements text = String.ofList (found.flatMap (·.render replacements)) ∧
      found.flatMap Piece.chars = text.toList ∧
      (∀ before rest name, text.toList = before ++ rest →
        (ReplacedAt found before name ↔
          IsLongestAt replacements.keys before rest name ∧ ¬RunsOn rest name)) ∧
      (ReplacesWhole replacements.keys text.toList found ↔
        LongestAreWhole replacements.keys text.toList)) ∧
    ((∀ text : String, LongestAreWhole replacements.keys text.toList) ↔
      ∀ name ∈ replacements.keys, ∀ longer ∈ replacements.keys, ¬Continues name longer) := by
  constructor
  · intro text
    exact ⟨_, replaceNames_eq_render replacements text, chars_pieces hnames _,
      fun before rest name htext => replacedAt_pieces_iff hnames htext,
      replacesWhole_pieces_iff hnames _⟩
  · rw [← longestAreWhole_iff hnames]
    exact ⟨fun h text => String.toList_ofList (l := text) ▸ h (String.ofList text),
      fun h text => h text.toList⟩

/-- One name may begin another one that has no dot behind it. -/
theorem beginning_replaces_whole :
    (∀ name ∈ Dict.keys [("process", "P"), ("process_env", "E")], IsPath name) ∧
    ∀ text : String, ∃ found,
      replaceNames [("process", "P"), ("process_env", "E")] text =
        String.ofList (found.flatMap (·.render [("process", "P"), ("process_env", "E")])) ∧
      ReplacesWhole ["process", "process_env"] text.toList found := by
  refine ⟨by decide +kernel, fun text => ?_⟩
  obtain ⟨hreplaced, hall⟩ :=
    @replaceNames_replaces_whole_iff [("process", "P"), ("process_env", "E")] (by decide +kernel)
  obtain ⟨found, houtput, -, -, hwhole⟩ := hreplaced text
  exact ⟨found, houtput, hwhole.mpr (hall.mpr (by decide +kernel) text)⟩

/-- A whole name is not replaced where a longer one runs on. -/
theorem environment_not_replaced : ¬∃ found,
    replaceNames [("process", "P"), ("process.env", "E")] "process.environment" =
      String.ofList (found.flatMap (·.render [("process", "P"), ("process.env", "E")])) ∧
    ReplacesWhole ["process", "process.env"] "process.environment".toList found := by
  rintro ⟨found, houtput, hwhole⟩
  -- the longest name is tried, and there is no place for a name in what it leaves
  have hfirst : firstName? (orderedNames [("process", "P"), ("process.env", "E")])
      "process.environment".toList = some ("process.env", "ironment".toList) :=
    firstName?_eq_some_iff.mpr
      ⟨⟨by decide +kernel, by decide +kernel, by decide +kernel⟩, by decide +kernel⟩
  have hunchanged : replaceNames [("process", "P"), ("process.env", "E")] "process.environment" =
      "process.environment" := by
    rw [replaceNames_eq_render, pieces, hfirst,
      piecesAfterStart_of_isNameBoundary_eq_false (by decide +kernel)]
    decide +kernel
  have hends : RunsOn "process.environment".toList "process.env" := by decide +kernel
  -- the shorter name is the only whole one
  have hlongest : IsLongestWholeAt ["process", "process.env"] [] "process.environment".toList
      "process" := by
    refine ⟨⟨by simp [AtBoundary], by decide +kernel, by decide +kernel⟩, by simp, ?_⟩
    intro other hother hother'
    rcases List.mem_pair.mp hother with rfl | rfl
    · exact Nat.le_refl _
    · exact absurd hends hother'.ends
  obtain ⟨earlier, later, rfl, hearlier⟩ :=
    (hwhole.replacedAt_iff [] _ "process" rfl).mpr hlongest
  -- so the text would begin with its replacement
  have hnil : earlier.flatMap (·.render [("process", "P"), ("process.env", "E")]) = [] := by
    rw [List.flatMap_eq_nil_iff] at hearlier ⊢
    intro piece hpiece
    have hchars := hearlier piece hpiece
    rcases piece with c | ⟨key, _ | _⟩
    · simp [Piece.chars] at hchars
    · exact hchars
    · have hkey : key = "" := by simpa [Piece.chars] using hchars
      rw [hkey]
      decide +kernel
  rw [hunchanged, List.flatMap_append, hnil, ← String.toList_inj, String.toList_ofList] at houtput
  simp [Piece.render, Dict.find?] at houtput

end Filewise.Script
