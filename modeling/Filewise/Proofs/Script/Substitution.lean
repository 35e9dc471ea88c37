import Filewise.Engine.Standard
import Filewise.Proofs.Script.Names

/-!
# Names that are replaced at matches

Names are searched from left to right. Each time the search finds the match that begins first, and
it goes on behind it, whether the name there is whole or not. What is put in place of the whole
names is not searched: where the matches are depends on the names alone, not on their values.

Any texts may be searched, also the empty one, which is found at the start of a script and after
each character that belongs to no name or path.

## Main definitions

* `IsMatch`: the places at which names may be found.
* `IsNext`: the match that is found from a place on.
* `Scan`: the matches that are found one after the other.
* `IsOccurrence`: a name that is whole where it stands.
* `substitute`: a script with the names at some matches replaced.

## Main results

* `Scan.unique`: the names and the script tell which matches are found.
* `exists_isCutAt_pieces`: the pieces of a script are made by a scan.
* `replaceNames_substitutes_matches`: what scripts with their names replaced are.
-/

namespace Filewise.Script

/-! ### Matches -/

/-- A name that is found, with the character before it unless the name begins the script. -/
structure Match where
  /-- The place at which the match begins. -/
  place : Nat
  /-- The place at which the name begins. -/
  start : Nat
  name : String
  deriving DecidableEq, Repr

namespace Match

/-- The place behind the name. -/
def stop (m : Match) : Nat := m.start + m.name.length

/-- Where the search goes on: behind the match, and one character further on if it is empty. -/
def resume (m : Match) : Nat := if m.place = m.stop then m.stop + 1 else m.stop

theorem resume_of_lt {m : Match} (h : m.place < m.stop) : m.resume = m.stop :=
  if_neg h.ne

/-- The name does not run on. -/
def IsWhole (text : List Char) (m : Match) : Prop := ¬RunsOn (text.drop m.start) m.name

instance (text : List Char) (m : Match) : Decidable (m.IsWhole text) :=
  inferInstanceAs (Decidable (¬_))

/-- Earlier matches come first. Of those that begin at one place, a name at the start of the script
comes before names behind a character, and a longer name before a shorter one. -/
def IsPreferred (m other : Match) : Prop :=
  m.place < other.place ∨ m.place = other.place ∧
    (m.start < other.start ∨ m.start = other.start ∧ other.name.length ≤ m.name.length)

end Match

/-- A name begins the script, or it stands behind a character after which names may begin. -/
structure IsMatch (names : List String) (text : List Char) (m : Match) : Prop where
  mem : m.name ∈ names
  isPrefix : m.name.toList <+: text.drop m.start
  begins : m.place = 0 ∧ m.start = 0 ∨
    ∃ c, text[m.place]? = some c ∧ isNameBoundary c = true ∧ m.start = m.place + 1

/-- The match that is found from a place on. -/
structure IsNext (names : List String) (text : List Char) (place : Nat) (m : Match) : Prop where
  isMatch : IsMatch names text m
  le : place ≤ m.place
  isPreferred : ∀ other, IsMatch names text other → place ≤ other.place → m.IsPreferred other

/-- The matches that are found from a place on, until there are no more. -/
inductive Scan (names : List String) (text : List Char) : Nat → List Match → Prop
  | done {place : Nat} : (∀ m, IsMatch names text m → m.place < place) → Scan names text place []
  | found {place : Nat} {m : Match} {later : List Match} :
      IsNext names text place m → Scan names text m.resume later →
      Scan names text place (m :: later)

/-- A name that stands as a whole at its place in a script. -/
structure IsOccurrence (names : List String) (text : List Char) (m : Match) : Prop where
  mem : m.name ∈ names
  stop_le : m.stop ≤ text.length
  isWholeAt : IsWholeAt (text.take m.start) (text.drop m.start) m.name

/-- The matches with whole names. -/
def wholeMatches (text : List Char) (found : List Match) : List Match :=
  found.filter fun m => m.IsWhole text

/-- A script from a place on, with the names at matches replaced. What stands between them is
copied. -/
def substitute (value : String → String) (text : List Char) : Nat → List Match → List Char
  | copied, [] => text.drop copied
  | copied, m :: later =>
    (text.drop copied).take (m.start - copied) ++ (value m.name).toList ++
      substitute value text m.stop later

/-- The values that a dictionary has for names. -/
def HasValues (names : List String) (values : Dict String) (value : String → String) : Prop :=
  ∀ name ∈ names, values.find? name = some (value name)

variable {names : List String} {name : String} {rest text : List Char} {c : Char}
  {place copied : Nat} {m other : Match} {found later : List Match} {cut : List Piece}
  {replacements values : Dict String} {value : String → String}

theorem IsMatch.place_le (h : IsMatch names text m) : m.place ≤ m.start := by
  rcases h.begins with ⟨hplace, -⟩ | ⟨-, -, -, hstart⟩ <;> omega

theorem IsMatch.start_le (h : IsMatch names text m) : m.start ≤ text.length := by
  rcases h.begins with ⟨-, hstart⟩ | ⟨c, hc, -, hstart⟩
  · omega
  · obtain ⟨hlt, -⟩ := List.getElem?_eq_some_iff.mp hc
    omega

/-- A match is read off the text: its name is followed by what stands behind it. -/
theorem IsMatch.drop_start (h : IsMatch names text m) :
    text.drop m.start = m.name.toList ++ text.drop m.stop := by
  obtain ⟨rest, hrest⟩ := h.isPrefix
  rw [Match.stop, ← List.drop_drop, ← hrest, drop_length]

theorem IsMatch.stop_le (h : IsMatch names text m) : m.stop ≤ text.length := by
  have hlength := h.isPrefix.length_le
  rw [String.length_toList, List.length_drop] at hlength
  have := h.start_le
  unfold Match.stop
  omega

theorem IsMatch.atBoundary (h : IsMatch names text m) : AtBoundary (text.take m.start) := by
  intro c hlast
  rcases h.begins with ⟨-, hstart⟩ | ⟨c', hc', hboundary, hstart⟩
  · simp [hstart] at hlast
  · rw [hstart, List.getLast?_take, if_neg (Nat.succ_ne_zero _), Nat.add_sub_cancel, hc',
      Option.some_or, Option.some_inj] at hlast
    rwa [← hlast]

theorem IsMatch.isOccurrence (h : IsMatch names text m) (hwhole : m.IsWhole text) :
    IsOccurrence names text m :=
  ⟨h.mem, h.stop_le, h.atBoundary, h.isPrefix, hwhole⟩

/-- Between a match and one that is found further on there is the character before the latter. -/
theorem IsMatch.stop_lt (h : IsMatch names text m) (h' : IsMatch names text other)
    (hle : m.resume ≤ other.place) : m.stop < other.start := by
  have hplace := h.place_le
  unfold Match.resume at hle
  have hstop : m.start ≤ m.stop := Nat.le_add_right _ _
  rcases h'.begins with ⟨hother, -⟩ | ⟨-, -, -, hstart⟩
  · -- no search goes on at the start of the script
    split_ifs at hle <;> omega
  · split_ifs at hle <;> omega

/-! ### Scans -/

/-- Only one match is found. -/
theorem IsNext.unique (h : IsNext names text place m) (h' : IsNext names text place other) :
    m = other := by
  -- each of the two is preferred to the other one, so they differ in nothing
  have hfirst := h.isPreferred other h'.isMatch h'.le
  have hfirst' := h'.isPreferred m h.isMatch h.le
  unfold Match.IsPreferred at hfirst hfirst'
  have hplace : m.place = other.place := by omega
  have hstart : m.start = other.start := by omega
  have hname : m.name = other.name :=
    eq_of_isPrefix h.isMatch.isPrefix (hstart ▸ h'.isMatch.isPrefix) (by omega)
  cases m
  cases other
  simp_all

/-- The names and the script tell which matches are found. -/
theorem Scan.unique {others : List Match} (h : Scan names text place found)
    (h' : Scan names text place others) : others = found := by
  induction h generalizing others with
  | done hnone =>
    cases h' with
    | done => rfl
    | found hnext => exact absurd (hnone _ hnext.isMatch) (Nat.not_lt.mpr hnext.le)
  | found hnext _ ih =>
    cases h' with
    | done hnone => exact absurd (hnone _ hnext.isMatch) (Nat.not_lt.mpr hnext.le)
    | found hnext' hlater' =>
      obtain rfl := hnext.unique hnext'
      rw [ih hlater']

/-- What is found are matches from the place on. -/
theorem Scan.isMatch (h : Scan names text place found) :
    ∀ m ∈ found, IsMatch names text m ∧ place ≤ m.place := by
  induction h with
  | done => simp
  | found hnext hlater ih =>
    intro other hother
    rcases List.mem_cons.mp hother with rfl | hother
    · exact ⟨hnext.isMatch, hnext.le⟩
    · -- the search goes on behind the match, so not before the place
      obtain ⟨hmatch, hle⟩ := ih other hother
      have := hnext.le
      have := hnext.isMatch.place_le
      unfold Match.resume Match.stop at hle
      refine ⟨hmatch, ?_⟩
      split_ifs at hle <;> omega

/-- The names that are found stand apart, one behind the other. -/
theorem Scan.pairwise (h : Scan names text place found) :
    found.Pairwise fun m later => m.stop < later.start := by
  induction h with
  | done => exact List.Pairwise.nil
  | found hnext hlater ih =>
    refine List.Pairwise.cons (fun other hother => ?_) ih
    obtain ⟨hmatch, hle⟩ := hlater.isMatch other hother
    exact hnext.isMatch.stop_lt hmatch hle

/-- A place at which no match begins is passed over. -/
theorem Scan.of_succ (h : Scan names text (place + 1) found)
    (hnone : ∀ m, IsMatch names text m → m.place ≠ place) : Scan names text place found := by
  have hskip : ∀ m, IsMatch names text m → place ≤ m.place → place + 1 ≤ m.place :=
    fun m hmatch hle => Nat.lt_of_le_of_ne hle (hnone m hmatch).symm
  cases h with
  | done hlt =>
    refine .done fun m hmatch => ?_
    by_contra hle
    exact Nat.not_lt.mpr (hskip m hmatch (Nat.not_lt.mp hle)) (hlt m hmatch)
  | found hnext hlater =>
    exact .found ⟨hnext.isMatch, Nat.le_of_succ_le hnext.le, fun other hother hle =>
      hnext.isPreferred other hother (hskip other hother hle)⟩ hlater

/-! ### Copied text -/

/-- Text before the next match may be copied in advance. -/
theorem substitute_of_le {copied' : Nat} (hle : copied ≤ copied')
    (hfound : ∀ m ∈ found, copied' ≤ m.start) :
    substitute value text copied found =
      (text.drop copied).take (copied' - copied) ++ substitute value text copied' found := by
  have hdrop : (text.drop copied).drop (copied' - copied) = text.drop copied' := by
    rw [List.drop_drop, Nat.add_sub_cancel' hle]
  cases found with
  | nil => rw [substitute, substitute, ← hdrop, List.take_append_drop]
  | cons m later =>
    -- the text before the name is copied in two parts
    have hstart := hfound m List.mem_cons_self
    have hsplit : m.start - copied = (copied' - copied) + (m.start - copied') := by omega
    rw [substitute, substitute, hsplit, List.take_add, hdrop]
    simp only [List.append_assoc]

theorem substitute_of_getElem? (hc : text[copied]? = some c)
    (hfound : ∀ m ∈ found, copied + 1 ≤ m.start) :
    substitute value text copied found = c :: substitute value text (copied + 1) found := by
  obtain ⟨hlt, rfl⟩ := List.getElem?_eq_some_iff.mp hc
  rw [substitute_of_le (Nat.le_succ _) hfound, List.drop_eq_getElem_cons hlt,
    Nat.succ_eq_add_one, Nat.add_sub_cancel_left]
  rfl

/-- Names that are replaced by themselves leave the script as it was. -/
theorem substitute_of_eq_self (hvalue : ∀ m ∈ found, value m.name = m.name)
    (hfound : ∀ m ∈ found, IsMatch names text m ∧ copied ≤ m.start)
    (hpairwise : found.Pairwise fun m later => m.stop < later.start) :
    substitute value text copied found = text.drop copied := by
  induction found generalizing copied with
  | nil => rw [substitute]
  | cons m later ih =>
    obtain ⟨hbehind, hlater⟩ := List.pairwise_cons.mp hpairwise
    obtain ⟨hmatch, hle⟩ := hfound m List.mem_cons_self
    have hrest : substitute value text m.stop later = text.drop m.stop := by
      refine ih (fun other hother => hvalue other (List.mem_cons_of_mem _ hother))
        (fun other hother => ?_) hlater
      exact ⟨(hfound other (List.mem_cons_of_mem _ hother)).1, (hbehind other hother).le⟩
    calc
      _ = (text.drop copied).take (m.start - copied) ++ text.drop m.start := by
        rw [substitute, hrest, hvalue m List.mem_cons_self, List.append_assoc, ← hmatch.drop_start]
      _ = (text.drop copied).take (m.start - copied) ++
          (text.drop copied).drop (m.start - copied) := by
        rw [List.drop_drop, Nat.add_sub_cancel' hle]
      _ = text.drop copied := List.take_append_drop _ _

/-! ### Pieces made by a scan -/

/-- Pieces of a script from a place on that are made by a scan: with any values they become the
script with the whole names replaced. -/
structure IsCutAt (names : List String) (text : List Char) (place : Nat) (pieces : List Piece)
    (found : List Match) : Prop where
  scan : Scan names text place found
  render_eq : ∀ values value, HasValues names values value →
    pieces.flatMap (·.render values) = substitute value text place (wholeMatches text found)

theorem wholeMatches_cons_of_isWhole (h : m.IsWhole text) :
    wholeMatches text (m :: later) = m :: wholeMatches text later :=
  List.filter_cons_of_pos (by simpa using h)

theorem wholeMatches_cons_of_not (h : ¬m.IsWhole text) :
    wholeMatches text (m :: later) = wholeMatches text later :=
  List.filter_cons_of_neg (by simpa using h)

theorem le_start_of_mem_wholeMatches (h : Scan names text place found) :
    ∀ m ∈ wholeMatches text found, place ≤ m.start := by
  intro m hm
  obtain ⟨hmatch, hle⟩ := h.isMatch m (List.mem_of_mem_filter hm)
  exact hle.trans hmatch.place_le

theorem start_le_of_mem_wholeMatches_cons
    (h : ∀ other ∈ wholeMatches text later, m.stop ≤ other.start) :
    ∀ other ∈ wholeMatches text (m :: later), m.start ≤ other.start := by
  intro other hother
  rcases List.mem_cons.mp (List.mem_of_mem_filter hother) with rfl | hmem
  · exact Nat.le_refl _
  · have hwhole : other ∈ wholeMatches text later :=
      List.mem_filter.mpr ⟨hmem, (List.mem_filter.mp hother).2⟩
    exact (Nat.le_add_right _ _).trans (h other hwhole)

/-- A character at which no match begins is copied. -/
theorem IsCutAt.char (h : IsCutAt names text (place + 1) cut found)
    (hc : text[place]? = some c) (hnone : ∀ m, IsMatch names text m → m.place ≠ place) :
    IsCutAt names text place (.char c :: cut) found := by
  refine ⟨h.scan.of_succ hnone, fun values value hvalues => ?_⟩
  rw [List.flatMap_cons, h.render_eq values value hvalues,
    substitute_of_getElem? hc (le_start_of_mem_wholeMatches h.scan)]
  rfl

/-- A match becomes the value of its name, or it is copied because it runs on. -/
theorem render_occurrence (hmatch : IsMatch names text m) (hvalues : HasValues names values value)
    (hlater : ∀ other ∈ wholeMatches text later, m.stop ≤ other.start) :
    (occurrence m.name (text.drop m.stop)).render values ++
        substitute value text m.stop (wholeMatches text later) =
      substitute value text m.start (wholeMatches text (m :: later)) := by
  rw [occurrence_eq, ← hmatch.drop_start]
  by_cases hruns : RunsOn (text.drop m.start) m.name
  · have hcopied : m.name.toList = (text.drop m.start).take (m.stop - m.start) := by
      rw [hmatch.drop_start, Match.stop, Nat.add_sub_cancel_left, ← String.length_toList,
        List.take_left]
    rw [wholeMatches_cons_of_not (not_not.mpr hruns), decide_eq_false (not_not.mpr hruns),
      Piece.render, hcopied]
    exact (substitute_of_le (Nat.le_add_right _ _) hlater).symm
  · rw [wholeMatches_cons_of_isWhole hruns, decide_eq_true hruns, Piece.render, substitute,
      hvalues m.name hmatch.mem]
    simp

/-! ### The scan of a script -/

/-- From a place on, all names stand behind characters after which names may begin. -/
def PastStart (names : List String) (text : List Char) (place : Nat) : Prop :=
  ∀ m, IsMatch names text m → place ≤ m.place →
    ∃ c, text[m.place]? = some c ∧ isNameBoundary c = true ∧ m.start = m.place + 1

theorem pastStart_of_pos (h : 0 < place) : PastStart names text place := by
  intro m hmatch hle
  rcases hmatch.begins with ⟨hplace, -⟩ | hbegins
  · omega
  · exact hbegins

theorem pastStart_of_not_isPrefix (h : ∀ name ∈ names, ¬name.toList <+: text) :
    PastStart names text place := by
  intro m hmatch _
  rcases hmatch.begins with ⟨-, hstart⟩ | hbegins
  · exact absurd (by simpa [hstart] using hmatch.isPrefix) (h m.name hmatch.mem)
  · exact hbegins

/-- The name that is tried first makes the match that is found, if no match begins at the same place
with an earlier name. -/
theorem isNext_of_firstName?
    (hfirst : firstName? (orderedNames replacements) (text.drop m.start) = some (m.name, rest))
    (hbegins : m.place = 0 ∧ m.start = 0 ∨
      ∃ c, text[m.place]? = some c ∧ isNameBoundary c = true ∧ m.start = m.place + 1)
    (hstart : ∀ other, IsMatch replacements.keys text other → other.place = m.place →
      m.start ≤ other.start) :
    IsNext replacements.keys text m.place m ∧ rest = text.drop m.stop := by
  obtain ⟨hlongest, hdrop⟩ := firstName?_eq_some_iff.mp hfirst
  have hmatch : IsMatch replacements.keys text m := ⟨hlongest.mem, hlongest.isPrefix, hbegins⟩
  refine ⟨⟨hmatch, Nat.le_refl _, fun other hother hle => ?_⟩,
    List.append_cancel_left (hdrop.symm.trans hmatch.drop_start)⟩
  rcases Nat.lt_or_eq_of_le hle with hlt | hplace
  · exact Or.inl hlt
  · refine Or.inr ⟨hplace, ?_⟩
    rcases Nat.lt_or_eq_of_le (hstart other hother hplace.symm) with hlt | hsame
    · exact Or.inl hlt
    · exact Or.inr ⟨hsame, hlongest.longest _ hother.mem (hsame ▸ hother.isPrefix)⟩

/-- A text that is not used up at a place has a character there. -/
theorem of_drop_eq_cons (h : text.drop place = c :: rest) :
    text[place]? = some c ∧ text.drop (place + 1) = rest := by
  constructor
  · rw [← List.head?_drop, h, List.head?_cons]
  · rw [← List.tail_drop, h, List.tail_cons]

/-- Behind the start, the pieces of a script are made by a scan. The induction is on what is left of
the script, with the place at which it begins. -/
theorem exists_isCutAt_piecesAfterStart (hrest : text.drop place = rest)
    (hpast : PastStart replacements.keys text place) :
    ∃ found, IsCutAt replacements.keys text place
      (piecesAfterStart (orderedNames replacements) rest) found := by
  fun_induction piecesAfterStart (orderedNames replacements) rest generalizing place with
  | case1 =>
    refine ⟨[], .done fun m hmatch => ?_, fun values value _ => hrest.symm⟩
    by_contra hle
    obtain ⟨c, hc, -⟩ := hpast m hmatch (Nat.not_lt.mp hle)
    obtain ⟨hlt, -⟩ := List.getElem?_eq_some_iff.mp hc
    have := List.drop_eq_nil_iff.mp hrest
    omega
  | case2 c more hc name later hfirst ih =>
    obtain ⟨hat, rfl⟩ := of_drop_eq_cons hrest
    obtain ⟨hnext, rfl⟩ := isNext_of_firstName? (m := ⟨place, place + 1, name⟩) hfirst
      (Or.inr ⟨c, hat, hc, rfl⟩) fun other hother hplace => by
        obtain ⟨-, -, -, hstart⟩ := hpast other hother hplace.ge
        simp [hstart, hplace]
    -- the character is used up with the name, also if the name is not whole
    have hlt : place < Match.stop ⟨place, place + 1, name⟩ :=
      Nat.lt_of_lt_of_le (Nat.lt_succ_self _) (Nat.le_add_right _ _)
    obtain ⟨found, hcut⟩ := ih rfl (pastStart_of_pos (Nat.zero_lt_of_lt hlt))
    have hlater := le_start_of_mem_wholeMatches hcut.scan
    have hscan := hcut.scan
    rw [← Match.resume_of_lt hlt] at hscan
    refine ⟨_, .found hnext hscan, fun values value hvalues => ?_⟩
    rw [List.flatMap_cons, List.flatMap_cons, hcut.render_eq values value hvalues,
      render_occurrence hnext.isMatch hvalues hlater,
      substitute_of_getElem? hat (start_le_of_mem_wholeMatches_cons hlater)]
    rfl
  | case3 c more hc hfirst ih =>
    obtain ⟨hat, rfl⟩ := of_drop_eq_cons hrest
    obtain ⟨found, hcut⟩ := ih rfl (pastStart_of_pos (Nat.succ_pos _))
    refine ⟨found, hcut.char hat fun m hmatch hplace => ?_⟩
    -- no name does stand behind the character
    obtain ⟨-, -, -, hstart⟩ := hpast m hmatch hplace.ge
    rw [hplace] at hstart
    exact firstName?_eq_none_iff.mp hfirst m.name hmatch.mem (hstart ▸ hmatch.isPrefix)
  | case4 c more hc ih =>
    obtain ⟨hat, rfl⟩ := of_drop_eq_cons hrest
    obtain ⟨found, hcut⟩ := ih rfl (pastStart_of_pos (Nat.succ_pos _))
    -- no name may stand behind the character
    refine ⟨found, hcut.char hat fun m hmatch hplace => hc ?_⟩
    obtain ⟨c', hc', hboundary, -⟩ := hpast m hmatch hplace.ge
    rw [hplace, hat, Option.some_inj] at hc'
    rwa [hc']

/-- If nothing is found but the empty name at the start, the search goes on behind the first
character. -/
theorem exists_isCutAt_pieces_of_empty
    (hfirst : firstName? (orderedNames replacements) text = some ("", text)) :
    ∃ found, IsCutAt replacements.keys text 0 (pieces (orderedNames replacements) text) found := by
  obtain ⟨hnext, -⟩ := isNext_of_firstName? (m := ⟨0, 0, ""⟩) hfirst (Or.inl ⟨rfl, rfl⟩)
    fun other _ _ => Nat.zero_le _
  rcases text with _ | ⟨c, rest⟩
  · -- there is no place behind the script
    have hpieces : pieces (orderedNames replacements) [] = [occurrence "" []] := by
      simp [pieces, hfirst]
    refine ⟨_, .found hnext (.done fun m hmatch => ?_), fun values value hvalues => ?_⟩
    · exact Nat.lt_succ_of_le (hmatch.place_le.trans hmatch.start_le)
    · rw [hpieces, ← render_occurrence hnext.isMatch hvalues (by simp [wholeMatches])]
      rfl
  · have hpieces : pieces (orderedNames replacements) (c :: rest) = occurrence "" (c :: rest) ::
        .char c :: piecesAfterStart (orderedNames replacements) rest := by
      simp [pieces, hfirst]
    have hdrop : (c :: rest).drop 1 = rest := rfl
    obtain ⟨found, hcut⟩ := exists_isCutAt_piecesAfterStart hdrop (pastStart_of_pos Nat.one_pos)
    refine ⟨_, .found hnext hcut.scan, fun values value hvalues => ?_⟩
    rw [hpieces, ← render_occurrence hnext.isMatch hvalues fun other _ => Nat.zero_le _,
      List.flatMap_cons, List.flatMap_cons, hcut.render_eq values value hvalues]
    exact congrArg _ (substitute_of_getElem? rfl (le_start_of_mem_wholeMatches hcut.scan)).symm

/-- The pieces of a script are made by a scan. -/
theorem exists_isCutAt_pieces (replacements : Dict String) (text : List Char) :
    ∃ found, IsCutAt replacements.keys text 0 (pieces (orderedNames replacements) text) found := by
  cases hfirst : firstName? (orderedNames replacements) text with
  | none =>
    rw [pieces_of_firstName?_eq_none hfirst]
    exact exists_isCutAt_piecesAfterStart rfl
      (pastStart_of_not_isPrefix (firstName?_eq_none_iff.mp hfirst))
  | some first =>
    obtain ⟨name, later⟩ := first
    by_cases hempty : name = ""
    · subst hempty
      obtain rfl : text = later := (firstName?_eq_some_iff.mp hfirst).2
      exact exists_isCutAt_pieces_of_empty hfirst
    · obtain ⟨hnext, hlater⟩ := isNext_of_firstName? (m := ⟨0, 0, name⟩) hfirst
        (Or.inl ⟨rfl, rfl⟩) fun other _ _ => Nat.zero_le _
      have hlt : 0 < Match.stop ⟨0, 0, name⟩ := by
        rw [Match.stop, Nat.zero_add, Nat.pos_iff_ne_zero, ← String.length_toList]
        simpa using hempty
      -- the search goes on right behind the name, where no script starts
      obtain ⟨found, hcut⟩ :=
        exists_isCutAt_piecesAfterStart hlater.symm (pastStart_of_pos hlt)
      have hscan := hcut.scan
      rw [← Match.resume_of_lt hlt] at hscan
      refine ⟨_, .found hnext hscan, fun values value hvalues => ?_⟩
      rw [pieces_of_firstName? hempty hfirst, List.flatMap_cons,
        hcut.render_eq values value hvalues, hlater]
      exact render_occurrence hnext.isMatch hvalues (le_start_of_mem_wholeMatches hcut.scan)

/-- Names are replaced at the matches that a scan finds, where they are whole. These stand apart
from each other, one behind the other, each at the start of the script or behind a character after
which names may begin, and none of them runs on. Which matches are found depends on the script and
the names alone, so it is the same for all values, and what is put in place of a name is not
searched. Names that are their own values leave the script as it is. -/
theorem replaceNames_substitutes_matches (replacements : Dict String) (text : String) :
    ∃ found : List Match, Scan replacements.keys text.toList 0 found ∧
      (∀ others, Scan replacements.keys text.toList 0 others → others = found) ∧
      (∀ m ∈ wholeMatches text.toList found, IsOccurrence replacements.keys text.toList m) ∧
      ((wholeMatches text.toList found).Pairwise fun m later => m.stop < later.start) ∧
      ∀ values value, values.keys = replacements.keys →
        HasValues replacements.keys values value →
        replaceNames values text =
          String.ofList (substitute value text.toList 0 (wholeMatches text.toList found)) ∧
        (∀ placement : Placement, Engine.replacements placement.options = .ok values →
          Engine.define.run placement text = .ok (replaceNames values text)) ∧
        ((∀ name ∈ replacements.keys, value name = name) → replaceNames values text = text) := by
  obtain ⟨found, hcut⟩ := exists_isCutAt_pieces replacements text.toList
  have hwhole : ∀ m ∈ wholeMatches text.toList found,
      IsMatch replacements.keys text.toList m ∧ m.IsWhole text.toList := by
    intro m hm
    obtain ⟨hmem, hends⟩ := List.mem_filter.mp hm
    exact ⟨(hcut.scan.isMatch m hmem).1, of_decide_eq_true hends⟩
  have hpairwise : (wholeMatches text.toList found).Pairwise fun m later => m.stop < later.start :=
    hcut.scan.pairwise.filter _
  refine ⟨found, hcut.scan, fun others => hcut.scan.unique, fun m hm => ?_, hpairwise, ?_⟩
  · exact (hwhole m hm).1.isOccurrence (hwhole m hm).2
  · intro values value hkeys hvalues
    have hnames : orderedNames values = orderedNames replacements := by
      rw [orderedNames, orderedNames, hkeys]
    have hreplaced : replaceNames values text =
        String.ofList (substitute value text.toList 0 (wholeMatches text.toList found)) := by
      rw [replaceNames_eq_render, hnames, hcut.render_eq values value hvalues]
    refine ⟨hreplaced, fun placement hoptions => ?_, fun hself => ?_⟩
    · have hmake : Engine.define.make placement =
          .ok fun content => .ok (replaceNames values content) := by
        simp only [Engine.define, Transformer.withSchema, Transformer.withDescription,
          Transformer.new, hoptions]
      rw [Transformer.run, hmake]
      rfl
    · rw [hreplaced, substitute_of_eq_self (fun m hm => hself _ (hwhole m hm).1.mem)
        (fun m hm => ⟨(hwhole m hm).1, Nat.zero_le _⟩) hpairwise, List.drop_zero,
        String.ofList_toList]

/-- The values of two names that are swapped. -/
def swappedName (name : String) : String := if name = "A" then "B" else "A"

theorem swapped_names_substituted : ∃ found,
    Scan ["A", "B"] "A B.C, A".toList 0 found ∧
    HasValues ["A", "B"] [("A", "B"), ("B", "A")] swappedName ∧
    Engine.define.run ⟨"web", [("replacements", .object [("A", .text "B"), ("B", .text "A")])],
        Target.new "web" ⟨"src"⟩ ⟨"dist"⟩⟩ "A B.C, A" =
      .ok (String.ofList (substitute swappedName "A B.C, A".toList 0
        (wholeMatches "A B.C, A".toList found))) := by
  obtain ⟨found, hscan, -, -, -, hvalues⟩ :=
    replaceNames_substitutes_matches [("A", "B"), ("B", "A")] "A B.C, A"
  have hvalue : HasValues ["A", "B"] [("A", "B"), ("B", "A")] swappedName := by
    intro name hname
    rcases List.mem_pair.mp hname with rfl | rfl <;> rfl
  obtain ⟨hreplaced, hrun, -⟩ := hvalues _ _ rfl hvalue
  exact ⟨found, hscan, hvalue, hreplaced ▸ hrun _ rfl⟩

/-- What is put in place of one name is not replaced by the other. -/
example : replaceNames [("A", "B"), ("B", "A")] "A B.C, A" = "B A.C, B" := by cbv

end Filewise.Script
