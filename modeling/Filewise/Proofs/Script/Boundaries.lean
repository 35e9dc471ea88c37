import Filewise.Proofs.Script.Names
import Filewise.Proofs.Text.Classes

/-!
# What stands around replaced names

Before a name that is replaced stands no character of a word, and behind it none of an identifier.
These are different classes of characters. So a name is taken for a whole one behind a superscript
or a fraction, and before an accent or a joiner, although an identifier goes on there.

## Main results

* `not_isWordChar_before`, `not_isIdentifierChar_behind`: what does not stand around a name that is
  replaced.
* `replaceNames_cuts_iff`: where an identifier goes on at the ends of a name that is replaced.
-/

namespace Filewise.Script

variable {replacements : Dict String} {before after text : List Char} {name : String} {c : Char}

/-- No character of a word, and no dollar sign, stands before a name that is replaced. -/
theorem not_isWordChar_before (hnames : ∀ name ∈ replacements.keys, IsPath name)
    (h : ReplacedAt (pieces (orderedNames replacements) (before ++ after)) before name)
    (hc : before.getLast? = some c) : Text.isWordChar c = false ∧ (c == '$') = false := by
  have hboundary := ((replacedAt_pieces_iff hnames rfl).mp h).1.boundary c hc
  simp only [isNameBoundary, decide_eq_true_iff, Bool.not_eq_true, Bool.or_eq_false_iff]
    at hboundary
  exact hboundary.1

/-- No character of an identifier stands behind a name that is replaced. -/
theorem not_isIdentifierChar_behind (hnames : ∀ name ∈ replacements.keys, IsPath name)
    (h : ReplacedAt (pieces (orderedNames replacements) (before ++ (name.toList ++ after))) before
      name)
    (hc : after.head? = some c) : Text.isIdentifierChar c = false := by
  have hends := ((replacedAt_pieces_iff hnames rfl).mp h).2
  rw [RunsOn, drop_length, hc] at hends
  simpa using hends

/-- An identifier goes on before a name that is replaced if a number stands there that is neither a
digit nor a letter. -/
theorem any_isNamePart_before (hnames : ∀ name ∈ replacements.keys, IsPath name)
    (h : ReplacedAt (pieces (orderedNames replacements) (before ++ after)) before name) :
    before.getLast?.any Text.isNamePart = before.getLast?.any Text.isOtherNumber := by
  cases hc : before.getLast? with
  | none => rfl
  | some c =>
    obtain ⟨hword, hdollar⟩ := not_isWordChar_before hnames h hc
    exact Text.isNamePart_of_isWordChar_eq_false hword hdollar

/-- An identifier goes on behind a name that is replaced if a mark, a connector or a joiner stands
there. -/
theorem any_isNamePart_behind (hnames : ∀ name ∈ replacements.keys, IsPath name)
    (h : ReplacedAt (pieces (orderedNames replacements) (before ++ (name.toList ++ after))) before
      name) :
    after.head?.any Text.isNamePart = after.head?.any Text.isWordExtender := by
  cases hc : after.head? with
  | none => rfl
  | some c =>
    exact Text.isNamePart_of_isIdentifierChar_eq_false (not_isIdentifierChar_behind hnames h hc)

/-- A name is replaced behind a boundary and before a character that belongs to no path and no
identifier. -/
theorem replacedAt_of_mem (hnames : ∀ name ∈ replacements.keys, IsPath name)
    (hname : name ∈ replacements.keys) (hbefore : AtBoundary before)
    (hpath : isPathChar c = false) (hidentifier : Text.isIdentifierChar c = false) :
    ReplacedAt (pieces (orderedNames replacements) (before ++ (name.toList ++ [c]))) before
      name := by
  refine (replacedAt_pieces_iff hnames rfl).mpr
    ⟨⟨⟨hname, List.prefix_append _ _, fun other hother hpre => ?_⟩, hbefore⟩, ?_⟩
  · by_contra! hlt
    -- a longer name would have to end in the character
    obtain ⟨more, hmore⟩ := exists_append_of_isPrefix (List.prefix_append _ _) hpre hlt.le
    rw [hmore, List.prefix_append_right_inj, List.prefix_cons_iff] at hpre
    rcases hpre with rfl | ⟨more, rfl, -⟩
    · rw [List.append_nil, String.toList_inj] at hmore
      exact Nat.lt_irrefl _ (hmore ▸ hlt)
    · have hmem := (hnames other hother).2 c (by simp [hmore])
      rw [hpath] at hmem
      simp at hmem
  · rw [RunsOn, drop_length, List.head?_cons, Option.any_some, hidentifier]
    simp

/-- A superscript two. -/
def superscript : Char := '²'

/-- An accent that combines with the character before it. -/
def accent : Char := '\u0301'

/-- An identifier goes on in front of a name that is replaced exactly if a number stands there that
is neither a digit nor a letter, and behind it exactly if a mark, a connector or a joiner stands
there. In some script each of the names is replaced where both is so. -/
theorem replaceNames_cuts_iff (hnames : ∀ name ∈ replacements.keys, IsPath name) :
    (∀ text : String, replaceNames replacements text = String.ofList
        ((pieces (orderedNames replacements) text.toList).flatMap (·.render replacements)) ∧
      ∀ before name after, text.toList = before ++ (name.toList ++ after) →
        ReplacedAt (pieces (orderedNames replacements) text.toList) before name →
        before.getLast?.any Text.isNamePart = before.getLast?.any Text.isOtherNumber ∧
        after.head?.any Text.isNamePart = after.head?.any Text.isWordExtender) ∧
    ∀ name ∈ replacements.keys, ∃ text : String, ∃ before after,
      text.toList = before ++ (name.toList ++ after) ∧
      ReplacedAt (pieces (orderedNames replacements) text.toList) before name ∧
      before.getLast?.any Text.isNamePart = true ∧ after.head?.any Text.isNamePart = true := by
  refine ⟨fun text => ⟨replaceNames_eq_render replacements text, ?_⟩, fun name hname => ?_⟩
  · intro before name after htext h
    rw [htext] at h
    exact ⟨any_isNamePart_before hnames h, any_isNamePart_behind hnames h⟩
  · refine ⟨String.ofList ([superscript] ++ (name.toList ++ [accent])), [superscript], [accent],
      String.toList_ofList, ?_, by decide +kernel, by decide +kernel⟩
    rw [String.toList_ofList]
    exact replacedAt_of_mem hnames hname (atBoundary_singleton.mpr (by decide +kernel)) (by decide)
      (by decide +kernel)

theorem version_cuts :
    (∀ name ∈ Dict.keys [("VERSION", "1")], IsPath name) ∧
    ∃ text : String, ∃ before after, text.toList = before ++ ("VERSION".toList ++ after) ∧
      ReplacedAt (pieces (orderedNames [("VERSION", "1")]) text.toList) before "VERSION" ∧
      before.getLast?.any Text.isNamePart = true ∧ after.head?.any Text.isNamePart = true :=
  ⟨by decide, (@replaceNames_cuts_iff [("VERSION", "1")] (by decide)).2 "VERSION" (by decide)⟩

/-- A name is replaced although an accent behind it makes it a part of another one. -/
theorem accented_name_is_cut : replaceNames [("e", "1")] "e\u0301" = "1\u0301" ∧
    ¬∀ before name after, "e\u0301".toList = before ++ (name.toList ++ after) →
      ReplacedAt (pieces (orderedNames [("e", "1")]) "e\u0301".toList) before name →
      before.getLast?.any Text.isNamePart = false ∧ after.head?.any Text.isNamePart = false := by
  constructor
  · have hfirst : firstName? (orderedNames [("e", "1")]) "e\u0301".toList = some ("e", [accent]) :=
      firstName?_eq_some_iff.mpr
        ⟨⟨by decide +kernel, by decide +kernel, by decide +kernel⟩, by decide +kernel⟩
    rw [replaceNames_eq_render, pieces_of_firstName? (by decide) hfirst,
      piecesAfterStart_of_isNameBoundary_eq_false (by decide +kernel)]
    decide +kernel
  intro h
  have hreplaced := @replacedAt_of_mem [("e", "1")] [] "e" accent (by decide) (by decide)
    (by simp [AtBoundary]) (by decide) (by decide +kernel)
  have hcut := (h [] "e" [accent] (by decide) hreplaced).2
  revert hcut
  decide +kernel

end Filewise.Script
