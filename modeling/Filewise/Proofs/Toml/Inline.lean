import Filewise.Proofs.Toml.Quoted
import Filewise.Proofs.Toml.Word
import Filewise.Proofs.Value.Proper
import Mathlib.Data.List.DropRight

/-!
# Reading values from lines

A value in a line is read back with the fields of its objects in ascending order, up to the depth at
which the reader stops. What follows a value decides where it ends, so the text behind it is carried
along. The items of a list and the fields of a table are read one after the other.

## Main definitions

* `Value.isLegible`: the values that TOML can carry.
* `Value.depth`: how deep a value is nested.

## Main results

* `Toml.key?_chars`: a key is read back if it has few parts.
* `Toml.reads_value?`: a value is read back if it is not nested too deeply.
-/

namespace Filewise

/-! ### Values that TOML can carry -/

namespace Value

mutual

/-- Whether TOML can carry a value: its integers have 64 bits with a sign, its floating-point
numbers are finite, and no object has two fields of one name. -/
def isLegible : Value → Bool
  | .null => false
  | .bool _ | .text _ => true
  | .integer n => Word.fitsSigned n
  | .float x => x.isFinite
  | .array items => areLegible items
  | .object fields => decide (fields.map Prod.fst).Nodup && haveLegible fields

/-- Whether TOML can carry some values. -/
def areLegible : List Value → Bool
  | [] => true
  | item :: rest => isLegible item && areLegible rest

/-- Whether TOML can carry the values of some fields. -/
def haveLegible : List (String × Value) → Bool
  | [] => true
  | (_, item) :: rest => isLegible item && haveLegible rest

end

mutual

/-- How deep a value is nested. -/
def depth : Value → ℕ
  | .array items => itemDepth items + 1
  | .object fields => fieldDepth fields + 1
  | _ => 0

/-- How deep the deepest one of some values is nested. -/
def itemDepth : List Value → ℕ
  | [] => 0
  | item :: rest => max (depth item) (itemDepth rest)

/-- How deep the deepest one of the values of some fields is nested. -/
def fieldDepth : List (String × Value) → ℕ
  | [] => 0
  | (_, item) :: rest => max (depth item) (fieldDepth rest)

end

theorem areLegible_iff {items : List Value} :
    areLegible items = true ↔ ∀ v ∈ items, v.isLegible = true := by
  induction items with
  | nil => simp [areLegible]
  | cons v rest ih => simp [areLegible, ih]

theorem haveLegible_iff {fields : List (String × Value)} :
    haveLegible fields = true ↔ ∀ field ∈ fields, field.2.isLegible = true := by
  induction fields with
  | nil => simp [haveLegible]
  | cons field rest ih =>
    obtain ⟨name, v⟩ := field
    simp [haveLegible, ih]

theorem isLegible_array_iff {items : List Value} :
    (array items).isLegible = true ↔ ∀ v ∈ items, v.isLegible = true := by
  rw [isLegible, areLegible_iff]

theorem isLegible_object_iff {fields : List (String × Value)} :
    (object fields).isLegible = true ↔
      (fields.map Prod.fst).Nodup ∧ ∀ field ∈ fields, field.2.isLegible = true := by
  rw [isLegible, Bool.and_eq_true, decide_eq_true_eq, haveLegible_iff]

theorem depth_array_lt {items : List Value} {n : ℕ} :
    (array items).depth < n + 1 ↔ 0 < n ∧ ∀ v ∈ items, v.depth < n := by
  rw [depth, Nat.add_lt_add_iff_right]
  induction items with
  | nil => simp [itemDepth]
  | cons v rest ih =>
    rw [itemDepth, Nat.max_lt, ih]
    simp only [List.forall_mem_cons]
    tauto

theorem depth_object_lt {fields : List (String × Value)} {n : ℕ} :
    (object fields).depth < n + 1 ↔ 0 < n ∧ ∀ field ∈ fields, field.2.depth < n := by
  rw [depth, Nat.add_lt_add_iff_right]
  induction fields with
  | nil => simp [fieldDepth]
  | cons field rest ih =>
    obtain ⟨name, v⟩ := field
    rw [fieldDepth, Nat.max_lt, ih]
    simp only [List.forall_mem_cons]
    tauto

end Value

namespace Toml

variable {c : Char} {depth steps parts : ℕ} {rest text : List Char} {v : Value}

/-! ### Blanks -/

/-- The text goes on with something that is no blank, no line end and no comment. -/
def IsSolid (text : List Char) : Prop :=
  ∀ c, text.head? = some c → c ∉ [' ', '\t', '\n', '\x0d', '#']

theorem isSolid_cons : IsSolid (c :: rest) ↔ c ∉ [' ', '\t', '\n', '\x0d', '#'] := by
  simp [IsSolid]

theorem IsSolid.skipBlanks_eq (h : IsSolid text) : skipBlanks text = text := by
  cases text with
  | nil => rfl
  | cons c rest =>
    have hc := isSolid_cons.mp h
    simp only [List.mem_cons, not_or] at hc
    simp [skipBlanks, hc.1, hc.2.1]

theorem IsSolid.lineEnd?_eq (h : IsSolid text) : lineEnd? text = none := by
  refine lineEnd?_eq_none (fun hline => ?_) fun hreturn => ?_
  · exact absurd (h _ hline) (by decide)
  · exact absurd (h _ hreturn) (by decide)

/-- Blanks are skipped, and nothing behind them. -/
theorem IsSolid.skipTriviaWithin_eq (h : IsSolid rest) (hblanks : skipBlanks text = rest) :
    skipTriviaWithin (steps + 1) text = some rest := by
  rw [skipTriviaWithin, hblanks]
  split
  · exact absurd (h _ rfl) (by decide)
  · rw [h.lineEnd?_eq]

theorem IsSolid.skipTrivia?_eq (h : IsSolid text) : skipTrivia? text = some text :=
  h.skipTriviaWithin_eq h.skipBlanks_eq

/-- A line end and blanks are skipped. -/
theorem IsSolid.skipTrivia?_line (h : IsSolid text) (blanks : ℕ) :
    skipTrivia? ('\n' :: (List.replicate blanks ' ' ++ text)) = some text := by
  have hblanks : skipBlanks (List.replicate blanks ' ' ++ text) = text := by
    rw [skipBlanks, List.dropWhile_append_of_pos (by simp)]
    exact h.skipBlanks_eq
  have hline : skipBlanks ('\n' :: (List.replicate blanks ' ' ++ text)) =
      '\n' :: (List.replicate blanks ' ' ++ text) := rfl
  rw [skipTrivia?, skipTriviaWithin, hline]
  exact h.skipTriviaWithin_eq hblanks

/-! ### Keys -/

/-- A name begins with a quote or with a character that needs none. -/
theorem exists_keyChars_eq (name : String) :
    ∃ c more, keyChars name = c :: more ∧ (c = '"' ∨ c = '\x27' ∨ isBare c = true) := by
  unfold keyChars
  dsimp only
  split_ifs with hbare
  · simp only [Bool.and_eq_true, Bool.not_eq_true', List.isEmpty_eq_false_iff,
      List.all_eq_true] at hbare
    obtain ⟨c, more, heq⟩ := List.exists_cons_of_ne_nil hbare.1
    exact ⟨c, more, heq, .inr (.inr (hbare.2 c (heq ▸ List.mem_cons_self)))⟩
  · exact ⟨_, _, rfl, .inr (.inl rfl)⟩
  · exact ⟨_, _, rfl, .inl rfl⟩

/-- A name begins with no character that means something to a reader of lines. -/
theorem keyChars_append_head (name : String) (rest : List Char) : ∃ c more,
    keyChars name ++ rest = c :: more ∧
      c ∉ [' ', '\t', '\n', '\x0d', '#', '[', '\x7d', '\uFEFF'] := by
  obtain ⟨c, more, hchars, hc⟩ := exists_keyChars_eq name
  refine ⟨c, more ++ rest, by rw [hchars, List.cons_append], fun hmem => ?_⟩
  have hbare : ∀ d ∈ [' ', '\t', '\n', '\x0d', '#', '[', '\x7d', '\uFEFF'],
      (d != '"' && d != '\x27' && !isBare d) = true := List.all_eq_true.mp (by decide)
  have hnone := hbare c hmem
  simp_all

theorem isSolid_keyChars (name : String) (rest : List Char) : IsSolid (keyChars name ++ rest) := by
  obtain ⟨c, more, heq, hc⟩ := keyChars_append_head name rest
  rw [heq, isSolid_cons]
  exact fun hmem => hc (by simp_all)

/-- The parts of a key are read back if they are not too many. -/
theorem keyWithin?_chars (tables : List String) (name : String)
    (hbare : ∀ c, rest.head? = some c → isBare c = false)
    (hpoint : (skipBlanks rest).head? ≠ some '.') :
    keyWithin? parts (tables.flatMap (fun table => keyChars table ++ ['.']) ++
      (keyChars name ++ rest)) =
      if tables.length < parts then some (tables ++ [name], skipBlanks rest) else none := by
  -- each table takes one of the parts that are allowed, and the name the last one
  induction tables generalizing parts with
  | nil =>
    rw [List.flatMap_nil, List.nil_append]
    cases parts with
    | zero => rfl
    | succ parts =>
      rw [keyWithin?, (isSolid_keyChars name rest).skipBlanks_eq, keyPart?_keyChars name hbare,
        if_pos (show [].length < parts + 1 by simp)]
      simp only [Option.bind_eq_bind, Option.bind_some]
      split
      · rename_i heq
        simp [heq] at hpoint
      · rfl
  | cons table tables ih =>
    cases parts with
    | zero => rfl
    | succ parts =>
      have hpart : ∀ more, keyPart? (keyChars table ++ '.' :: more) = some (table, '.' :: more) :=
        fun more => keyPart?_keyChars table (by simp [isBare])
      rw [List.flatMap_cons, List.append_assoc, List.append_assoc, List.singleton_append,
        keyWithin?, (isSolid_keyChars table _).skipBlanks_eq, hpart]
      simp only [Option.bind_eq_bind, Option.bind_some]
      have hpoint : ∀ more, skipBlanks ('.' :: more) = '.' :: more := fun _ => rfl
      rw [hpoint]
      simp only [ih, List.length_cons]
      by_cases hfew : tables.length < parts
      · rw [if_pos hfew, if_pos (Nat.succ_lt_succ hfew)]
        rfl
      · rw [if_neg hfew, if_neg (by omega)]
        rfl

/-- A key has few enough parts to be read. -/
def Key.isShallow (key : Key) : Bool := key.tables.length + 1 < deepest

/-- A key is read back if it has few parts. -/
theorem key?_chars (key : Key) (hbare : ∀ c, rest.head? = some c → isBare c = false)
    (hpoint : (skipBlanks rest).head? ≠ some '.') :
    key? (key.chars ++ rest) = if key.isShallow then some (key, skipBlanks rest) else none := by
  rw [key?, Key.chars, List.append_assoc, keyWithin?_chars key.tables key.name hbare hpoint,
    Key.isShallow]
  by_cases hfew : key.tables.length < deepest - 1
  · rw [if_pos hfew, if_pos (decide_eq_true (Nat.add_lt_of_lt_sub hfew))]
    simp
  · rw [if_neg hfew, if_neg (by simpa using fun h => hfew (Nat.lt_sub_of_add_lt h))]
    rfl

/-- Blanks before a key do not count. -/
theorem key?_skipBlanks (text : List Char) : key? (skipBlanks text) = key? text := by
  have hskip : skipBlanks (skipBlanks text) = skipBlanks text := List.dropWhile_idempotent _ _
  rw [key?, key?, deepest, keyWithin?, keyWithin?, hskip]

/-! ### Beginnings and ends of values -/

/-- A text that can follow a value. -/
def IsEnd (text : List Char) : Prop := ∃ c rest, text = c :: rest ∧ c ∈ [',', '\n', ']', ' ']

theorem IsEnd.isWordChar_eq (h : IsEnd text) (hc : text.head? = some c) : isWordChar c = false := by
  obtain ⟨c', rest, rfl, hmem⟩ := h
  obtain rfl := Option.some_inj.mp hc
  have hnone : ∀ c ∈ [',', '\n', ']', ' '], (!isWordChar c) = true :=
    List.all_eq_true.mp (by decide)
  simpa using hnone _ hmem

theorem exists_quotedChars_eq (s : String) :
    ∃ c more, quotedChars s = c :: more ∧ (c = '"' ∨ c = '\x27') := by
  unfold quotedChars
  dsimp only
  split
  · exact ⟨_, _, rfl, .inl rfl⟩
  · exact ⟨_, _, rfl, .inr rfl⟩
  · exact ⟨_, _, rfl, .inl rfl⟩
  · exact ⟨_, _, rfl, .inr rfl⟩

/-- A value that TOML can carry begins with no blank and no end of anything. -/
theorem exists_lineChars_eq (h : v.isLegible = true) : ∃ c more, lineChars v = c :: more ∧
    c ∉ [' ', '\t', '\n', '\x0d', '#', ']'] := by
  have hword : ∀ {word}, IsWord word → ∃ c more, word = c :: more ∧
      c ∉ [' ', '\t', '\n', '\x0d', '#', ']'] := by
    intro word hword
    obtain ⟨c, more, rfl⟩ := List.exists_cons_of_ne_nil hword.ne_nil
    have hnone : ∀ c ∈ [' ', '\t', '\n', '\x0d', '#', ']'], (!isWordChar c) = true :=
      List.all_eq_true.mp (by decide)
    refine ⟨c, more, rfl, fun hmem => ?_⟩
    have hchar := hnone c hmem
    rw [hword.chars c List.mem_cons_self] at hchar
    exact Bool.noConfusion hchar
  cases v with
  | null => simp [Value.isLegible] at h
  | bool b => exact hword (isWord_bool b)
  | integer n => exact hword (isNumber_integer n).isWord
  | float x => exact hword (isNumber_float (by simpa [Value.isLegible] using h)).isWord
  | text s =>
    obtain ⟨c, more, heq, hc⟩ := exists_quotedChars_eq s
    exact ⟨c, more, heq, by rcases hc with rfl | rfl <;> decide⟩
  | array items =>
    rcases items with _ | ⟨v, _ | ⟨w, rest⟩⟩ <;> exact ⟨'[', _, rfl, by decide⟩
  | object fields => cases fields <;> exact ⟨'\x7b', _, rfl, by decide⟩

theorem isSolid_lineChars (h : v.isLegible = true) (rest : List Char) :
    IsSolid (lineChars v ++ rest) := by
  obtain ⟨c, more, heq, hc⟩ := exists_lineChars_eq h
  rw [heq, List.cons_append, isSolid_cons]
  exact fun hmem => hc (by simp_all)

/-- No value begins with the bracket that closes a list. -/
theorem lineChars_append_ne (h : v.isLegible = true) (rest more : List Char) :
    lineChars v ++ rest ≠ ']' :: more := by
  obtain ⟨c, chars, hchars, hc⟩ := exists_lineChars_eq h
  rw [hchars, List.cons_append]
  rintro ⟨⟩
  exact absurd (by decide) hc

/-! ### Lists -/

/-- A reader takes a value off the front of a text if it is not nested too deeply. -/
def Reads (item : Reader Value) (depth : ℕ) (v : Value) : Prop :=
  ∀ rest, IsEnd rest →
    item (lineChars v ++ rest) = if v.depth < depth then some (v.sorted, rest) else none

variable {item : Reader Value}

/-- Items on lines of their own are read back. -/
theorem items?_itemLines {items : List Value} (hlegible : ∀ v ∈ items, v.isLegible = true)
    (hitem : ∀ v ∈ items, Reads item depth v) (hsteps : items.length < steps) :
    items? item steps (itemLines items ++ '\n' :: ']' :: rest) =
      if ∀ v ∈ items, v.depth < depth then some (items.map Value.sorted, rest) else none := by
  induction items generalizing steps with
  | nil =>
    obtain ⟨steps, rfl⟩ := Nat.exists_eq_succ_of_ne_zero (Nat.ne_zero_of_lt hsteps)
    have hend : IsSolid (']' :: rest) := isSolid_cons.mpr (by decide)
    have hline := hend.skipTrivia?_line 0
    rw [List.replicate_zero, List.nil_append] at hline
    rw [itemLines, List.nil_append, items?, hline]
    rfl
  | cons v items ih =>
    obtain ⟨steps, rfl⟩ := Nat.exists_eq_succ_of_ne_zero (Nat.ne_zero_of_lt hsteps)
    obtain ⟨hv, hlegible⟩ := List.forall_mem_cons.mp hlegible
    obtain ⟨hread, hitem⟩ := List.forall_mem_cons.mp hitem
    have htext : itemLines (v :: items) ++ '\n' :: ']' :: rest = '\n' :: (List.replicate 4 ' ' ++
        (lineChars v ++ (',' :: (itemLines items ++ '\n' :: ']' :: rest)))) := by
      rw [itemLines, List.append_assoc, List.append_assoc, List.cons_append]
      rfl
    have hall : (∀ w ∈ v :: items, w.depth < depth) ↔
        v.depth < depth ∧ ∀ w ∈ items, w.depth < depth := List.forall_mem_cons
    have hcomma : IsSolid (',' :: (itemLines items ++ '\n' :: ']' :: rest)) :=
      isSolid_cons.mpr (by decide)
    rw [htext, items?, (isSolid_lineChars hv _).skipTrivia?_line 4]
    simp only [Option.bind_eq_bind, Option.bind_some]
    split
    · rename_i heq
      exact absurd heq (lineChars_append_ne hv _ _)
    · rw [hread _ ⟨',', _, rfl, by decide⟩]
      by_cases hdepth : v.depth < depth
      · rw [if_pos hdepth]
        simp only [Option.bind_some]
        rw [hcomma.skipTrivia?_eq]
        simp only [Option.bind_some]
        rw [ih hlegible hitem (Nat.lt_of_succ_lt_succ hsteps)]
        by_cases hrest : ∀ w ∈ items, w.depth < depth
        · rw [if_pos hrest, if_pos (hall.mpr ⟨hdepth, hrest⟩)]
          rfl
        · rw [if_neg hrest, if_neg fun h => hrest (hall.mp h).2]
          rfl
      · rw [if_neg hdepth, if_neg fun h => hdepth (hall.mp h).1]
        rfl

/-- A single item between its brackets is read back. -/
theorem items?_singleton (hlegible : v.isLegible = true) (hread : Reads item depth v) :
    items? item (steps + 1) (lineChars v ++ ']' :: rest) =
      if v.depth < depth then some ([v.sorted], rest) else none := by
  have hbracket : IsSolid (']' :: rest) := isSolid_cons.mpr (by decide)
  rw [items?, (isSolid_lineChars hlegible _).skipTrivia?_eq]
  simp only [Option.bind_eq_bind, Option.bind_some]
  split
  · rename_i heq
    exact absurd heq (lineChars_append_ne hlegible _ _)
  · rw [hread _ ⟨']', _, rfl, by decide⟩]
    by_cases hdepth : v.depth < depth
    · rw [if_pos hdepth, if_pos hdepth]
      simp only [Option.bind_some]
      rw [hbracket.skipTrivia?_eq]
      rfl
    · rw [if_neg hdepth, if_neg hdepth]
      rfl

/-! ### Tables in lines -/

/-- A key and its value are read back. -/
theorem assignment?_chars (key : Key) (hlegible : v.isLegible = true) (hread : Reads item depth v)
    (hrest : IsEnd rest) :
    assignment? item (key.chars ++ (" = ".toList ++ (lineChars v ++ rest))) =
      if key.isShallow ∧ v.depth < depth then some ((key, v.sorted), rest) else none := by
  have hequals : skipBlanks (" = ".toList ++ (lineChars v ++ rest)) =
      '=' :: ' ' :: (lineChars v ++ rest) := rfl
  have hblank : skipBlanks (' ' :: (lineChars v ++ rest)) = lineChars v ++ rest :=
    (isSolid_lineChars hlegible rest).skipBlanks_eq
  rw [assignment?, key?_chars key (by simp [isBare]) (by rw [hequals]; simp), hequals]
  by_cases hkey : key.isShallow
  · simp only [hkey, ↓reduceIte, Option.bind_eq_bind, Option.bind_some, hblank, hread rest hrest,
      true_and]
    by_cases hdepth : v.depth < depth
    · rw [if_pos hdepth, if_pos hdepth]
      rfl
    · rw [if_neg hdepth, if_neg hdepth]
      rfl
  · rw [if_neg hkey, if_neg fun h => hkey h.1]
    rfl

/-- Blanks before an assignment do not count. -/
theorem assignment?_skipBlanks (text : List Char) :
    assignment? item (skipBlanks text) = assignment? item text := by
  rw [assignment?, assignment?, key?_skipBlanks]

theorem inlineFields?_skipBlanks (done : List (String × InlineNode)) (text : List Char) :
    inlineFields? item done (steps + 1) (skipBlanks text) =
      inlineFields? item done (steps + 1) text := by
  rw [inlineFields?, inlineFields?, assignment?_skipBlanks]

/-- A name that no field has is not found among the fields that were read. -/
theorem any_eq_false_of_nodup {done : List (String × InlineNode)} {name : String}
    {names : List String} (h : (done.map Prod.fst ++ name :: names).Nodup) :
    (done.any fun entry => entry.1 = name) = false := by
  have hdisjoint := (List.nodup_append.mp h).2.2
  rw [List.any_eq_false]
  intro entry hentry heq
  exact hdisjoint entry.1 (List.mem_map_of_mem hentry) name List.mem_cons_self (by simpa using heq)

/-- What stands behind the value of a field, given the fields that come after it: a comma and these
fields, if there are any, and the brace. -/
def behindField (fields : List (String × Value)) (rest : List Char) : List Char :=
  (if fields.isEmpty then [] else [',']) ++ (fieldChars fields ++ ' ' :: '\x7d' :: rest)

theorem isEnd_behindField (fields : List (String × Value)) (rest : List Char) :
    IsEnd (behindField fields rest) := by
  cases fields with
  | nil => exact ⟨' ', _, rfl, by decide⟩
  | cons field fields => exact ⟨',', _, rfl, by decide⟩

theorem skipBlanks_fieldChars_cons (name : String) (v : Value) (fields : List (String × Value))
    (rest : List Char) :
    skipBlanks (fieldChars ((name, v) :: fields) ++ ' ' :: '\x7d' :: rest) =
      Key.chars ⟨[], name⟩ ++ (" = ".toList ++ (lineChars v ++ behindField fields rest)) := by
  rw [fieldChars, behindField]
  simp only [List.append_assoc, List.cons_append]
  exact (isSolid_keyChars name _).skipBlanks_eq

/-- The fields of a table in a line are read back. -/
theorem inlineFields?_fieldChars {fields : List (String × Value)}
    {done : List (String × InlineNode)} (hne : fields ≠ [])
    (hlegible : ∀ field ∈ fields, field.2.isLegible = true)
    (hitem : ∀ field ∈ fields, Reads item depth field.2)
    (hnodup : (done.map Prod.fst ++ fields.map Prod.fst).Nodup) (hsteps : fields.length ≤ steps) :
    inlineFields? item done steps (fieldChars fields ++ ' ' :: '\x7d' :: rest) =
      if ∀ field ∈ fields, field.2.depth < depth then
        some (done ++ fields.map fun field => (field.1, .leaf field.2.sorted), rest)
      else none := by
  -- the fields that were read before grow, and no name comes twice among all of them
  induction fields generalizing done steps with
  | nil => exact absurd rfl hne
  | cons field fields ih =>
    obtain ⟨name, v⟩ := field
    obtain ⟨steps, rfl⟩ := Nat.exists_eq_succ_of_ne_zero (Nat.ne_zero_of_lt hsteps)
    obtain ⟨hv, hlegible⟩ := List.forall_mem_cons.mp hlegible
    obtain ⟨hread, hitem⟩ := List.forall_mem_cons.mp hitem
    have hall : (∀ field ∈ (name, v) :: fields, field.2.depth < depth) ↔
        v.depth < depth ∧ ∀ field ∈ fields, field.2.depth < depth := List.forall_mem_cons
    rw [inlineFields?, ← assignment?_skipBlanks, skipBlanks_fieldChars_cons,
      assignment?_chars _ hv hread (isEnd_behindField fields rest)]
    by_cases hdepth : v.depth < depth
    · rw [if_pos ⟨rfl, hdepth⟩]
      simp only [Option.bind_eq_bind, Option.bind_some, insertInline, any_eq_false_of_nodup hnodup,
        Bool.false_eq_true, ↓reduceIte]
      cases fields with
      | nil =>
        have hclose : skipBlanks (behindField [] rest) = '\x7d' :: rest := rfl
        rw [hclose, if_pos (hall.mpr ⟨hdepth, by simp⟩)]
        rfl
      | cons field fields =>
        have hcomma : skipBlanks (behindField (field :: fields) rest) =
            ',' :: (fieldChars (field :: fields) ++ ' ' :: '\x7d' :: rest) := rfl
        rw [hcomma]
        change inlineFields? item _ steps (fieldChars (field :: fields) ++ _) = _
        rw [ih (by simp) hlegible hitem (by simpa using hnodup) (by simpa using hsteps)]
        by_cases hrest : ∀ field' ∈ field :: fields, field'.2.depth < depth
        · rw [if_pos hrest, if_pos (hall.mpr ⟨hdepth, hrest⟩), List.append_assoc]
          rfl
        · rw [if_neg hrest, if_neg fun h => hrest (hall.mp h).2]
    · rw [if_neg fun h => hdepth h.2, if_neg fun h => hdepth (hall.mp h).1]
      rfl

/-- The fields of a table that was read from a line are its values. -/
theorem inlineFields_map_leaf (fields : List (String × Value)) :
    inlineFields (fields.map fun field => (field.1, .leaf field.2.sorted)) =
      Value.sortedFields fields := by
  induction fields with
  | nil => rfl
  | cons field fields ih =>
    rw [List.map_cons, inlineFields, ih]
    rfl

/-- Something is written for each field. -/
theorem length_le_length_fieldChars (fields : List (String × Value)) :
    fields.length ≤ (fieldChars fields).length := by
  induction fields with
  | nil => exact Nat.le_refl _
  | cons field fields ih =>
    obtain ⟨name, v⟩ := field
    rw [fieldChars]
    simp only [List.length_cons, List.length_append]
    omega

/-- A name stands behind the brace that opens a table, so the table is not the empty one. -/
theorem exists_fieldChars_eq {fields : List (String × Value)} (hne : fields ≠ [])
    (more : List Char) : ∃ c text, fieldChars fields ++ more = ' ' :: c :: text ∧
      skipBlanks (fieldChars fields ++ more) = c :: text ∧ c ≠ '\x7d' := by
  obtain ⟨⟨name, v⟩, fields, rfl⟩ := List.exists_cons_of_ne_nil hne
  have hskip : ∀ more, skipBlanks (' ' :: (keyChars name ++ more)) = keyChars name ++ more :=
    fun more => (isSolid_keyChars name more).skipBlanks_eq
  rw [fieldChars]
  simp only [List.append_assoc, List.cons_append]
  rw [hskip]
  obtain ⟨c, text, heq, hc⟩ := keyChars_append_head name _
  exact ⟨c, text, by rw [heq], heq, fun h => hc (by simp [h])⟩

/-- A table in a line is read back. -/
theorem inlineTable?_fieldChars {fields : List (String × Value)} (hne : fields ≠ [])
    (hlegible : (Value.object fields).isLegible = true)
    (hitem : ∀ field ∈ fields, Reads item depth field.2) :
    inlineTable? item (fieldChars fields ++ ' ' :: '\x7d' :: rest) =
      if ∀ field ∈ fields, field.2.depth < depth then some ((Value.object fields).sorted, rest)
      else none := by
  simp only [Value.isLegible, Bool.and_eq_true, decide_eq_true_eq, Value.haveLegible_iff]
    at hlegible
  obtain ⟨hnodup, hlegible⟩ := hlegible
  obtain ⟨text, htext⟩ : ∃ text, text = fieldChars fields ++ ' ' :: '\x7d' :: rest := ⟨_, rfl⟩
  obtain ⟨c, more, hblank, hsolid, hc⟩ := exists_fieldChars_eq hne (' ' :: '\x7d' :: rest)
  rw [← htext] at hblank hsolid
  -- as many steps are allowed as there are characters, and each field has some
  have hsteps : fields.length ≤ more.length + 2 := by
    have hlength := congrArg List.length (htext.symm.trans hblank)
    simp only [List.length_append, List.length_cons] at hlength
    have := length_le_length_fieldChars fields
    omega
  have hfields : inlineFields? item [] (more.length + 2) (skipBlanks text) =
      if ∀ field ∈ fields, field.2.depth < depth then
        some ([] ++ fields.map fun field => (field.1, .leaf field.2.sorted), rest)
      else none := by
    rw [inlineFields?_skipBlanks, htext]
    exact inlineFields?_fieldChars hne hlegible hitem (by simpa using hnodup) hsteps
  rw [← htext, inlineTable?]
  split
  · rename_i heq
    rw [hsolid, List.cons.injEq] at heq
    exact absurd heq.1 hc
  · rw [hsolid] at hfields ⊢
    rw [List.length_cons, hfields]
    by_cases hdepth : ∀ field ∈ fields, field.2.depth < depth
    · rw [if_pos hdepth, if_pos hdepth]
      simp only [Option.bind_eq_bind, Option.bind_some, List.nil_append, InlineNode.toValue,
        inlineFields_map_leaf]
      rfl
    · rw [if_neg hdepth, if_neg hdepth]
      rfl

/-! ### Values -/

/-- A word is read as its value. -/
theorem value?_word (h : IsWord text) (hrest : IsEnd rest) :
    value? (depth + 1) (text ++ rest) = (word? text).map fun v => (v, rest) := by
  have hword := h.wordText_append fun c => hrest.isWordChar_eq
  obtain ⟨c, more, rfl⟩ := List.exists_cons_of_ne_nil h.ne_nil
  have hchar := h.chars c List.mem_cons_self
  have hopen : ¬(c = '[' ∨ c = '\x7b') ∧ ¬(c = '"' ∨ c = '\x27') := by
    constructor <;> rintro (rfl | rfl) <;> exact absurd hchar (by decide)
  rw [List.cons_append] at hword ⊢
  rw [value?]
  dsimp only
  rw [if_neg hopen.1, if_neg hopen.2, hword]

/-- A text between quotes is read back. -/
theorem value?_quotedChars (s : String) (hrest : IsEnd rest) :
    value? (depth + 1) (quotedChars s ++ rest) = some (.text s, rest) := by
  obtain ⟨c, more, heq, hc⟩ := exists_quotedChars_eq s
  have hread : quoted? (quotedChars s ++ rest) = some (s, rest) := by
    obtain ⟨c, more, rfl, hmem⟩ := hrest
    refine quoted?_quotedChars s ?_ ?_ <;> rintro ⟨⟩ <;> simp at hmem
  have hopen : ¬(c = '[' ∨ c = '\x7b') := by
    rcases hc with rfl | rfl <;> decide
  rw [heq, List.cons_append] at hread ⊢
  rw [value?]
  dsimp only
  rw [if_neg hopen, if_pos hc, hread]
  rfl

/-- No bracket is opened at the greatest depth. -/
theorem value?_one (hc : c = '[' ∨ c = '\x7b') : value? 1 (c :: rest) = none := by
  rw [value?]
  dsimp only
  rw [if_pos hc, if_pos rfl]

theorem value?_bracket (hdepth : depth ≠ 0) : value? (depth + 1) ('[' :: text) =
    (items? (value? depth) (text.length + 1) text).map fun (vs, rest) => (.array vs, rest) := by
  rw [value?]
  dsimp only
  rw [if_pos (.inl rfl), if_neg hdepth, if_pos rfl]

theorem value?_brace (hdepth : depth ≠ 0) :
    value? (depth + 1) ('\x7b' :: text) = inlineTable? (value? depth) text := by
  rw [value?]
  dsimp only
  rw [if_pos (.inr rfl), if_neg hdepth, if_neg (by decide)]

/-- Something is written for each item. -/
theorem length_le_length_itemLines (items : List Value) :
    items.length ≤ (itemLines items).length := by
  induction items with
  | nil => exact Nat.le_refl _
  | cons v items ih =>
    rw [itemLines]
    simp only [List.length_cons, List.length_append]
    omega

/-- A list is read back if its items are. -/
theorem value?_array {items : List Value} (hlegible : ∀ v ∈ items, v.isLegible = true)
    (hitem : ∀ v ∈ items, Reads (value? depth) depth v) :
    value? (depth + 1) (lineChars (.array items) ++ rest) =
      if (Value.array items).depth < depth + 1 then some ((Value.array items).sorted, rest)
      else none := by
  rw [Value.sorted, Value.sortedItems_eq_map]
  simp only [Value.depth_array_lt]
  obtain ⟨body, hbody, hread⟩ : ∃ body, lineChars (.array items) ++ rest = '[' :: body ∧
      items? (value? depth) (body.length + 1) body =
        if ∀ v ∈ items, v.depth < depth then some (items.map Value.sorted, rest) else none := by
    rcases items with _ | ⟨v, _ | ⟨w, items⟩⟩
    · have hbracket : IsSolid (']' :: rest) := isSolid_cons.mpr (by decide)
      refine ⟨']' :: rest, rfl, ?_⟩
      rw [items?, hbracket.skipTrivia?_eq]
      rfl
    · refine ⟨lineChars v ++ ']' :: rest, by simp [lineChars], ?_⟩
      rw [items?_singleton (hlegible v List.mem_cons_self) (hitem v List.mem_cons_self)]
      simp
    · refine ⟨itemLines (v :: w :: items) ++ '\n' :: ']' :: rest, by simp [lineChars], ?_⟩
      refine items?_itemLines hlegible hitem ?_
      have := length_le_length_itemLines (v :: w :: items)
      rw [List.length_append]
      omega
  rw [hbody]
  rcases Nat.eq_zero_or_pos depth with rfl | hdepth
  · rw [value?_one (.inl rfl), if_neg fun h => Nat.lt_irrefl 0 h.1]
  · rw [value?_bracket hdepth.ne', hread]
    simp only [hdepth, true_and]
    by_cases hall : ∀ v ∈ items, v.depth < depth
    · rw [if_pos hall, if_pos hall]
      rfl
    · rw [if_neg hall, if_neg hall]
      rfl

/-- A table in a line is read back if its fields are. -/
theorem value?_object {fields : List (String × Value)}
    (hlegible : (Value.object fields).isLegible = true)
    (hitem : ∀ field ∈ fields, Reads (value? depth) depth field.2) :
    value? (depth + 1) (lineChars (.object fields) ++ rest) =
      if (Value.object fields).depth < depth + 1 then some ((Value.object fields).sorted, rest)
      else none := by
  obtain ⟨body, hbody, hread⟩ : ∃ body, lineChars (.object fields) ++ rest = '\x7b' :: body ∧
      inlineTable? (value? depth) body =
        if ∀ field ∈ fields, field.2.depth < depth then some ((Value.object fields).sorted, rest)
        else none := by
    cases fields with
    | nil => exact ⟨'\x7d' :: rest, rfl, rfl⟩
    | cons field fields =>
      exact ⟨fieldChars (field :: fields) ++ ' ' :: '\x7d' :: rest, by simp [lineChars],
        inlineTable?_fieldChars (List.cons_ne_nil _ _) hlegible hitem⟩
  rw [hbody]
  simp only [Value.depth_object_lt]
  rcases Nat.eq_zero_or_pos depth with rfl | hdepth
  · rw [value?_one (.inr rfl), if_neg fun h => Nat.lt_irrefl 0 h.1]
  · rw [value?_brace hdepth.ne', hread]
    simp only [hdepth, true_and]

/-- A value in a line is read back if it is not nested too deeply. -/
theorem reads_value? (hlegible : v.isLegible = true) : Reads (value? depth) depth v := by
  induction depth generalizing v with
  | zero =>
    intro rest _
    rw [if_neg (Nat.not_lt_zero _)]
    rfl
  | succ depth ih =>
    intro rest hrest
    cases v with
    | null => simp [Value.isLegible] at hlegible
    | bool b =>
      rw [lineChars, value?_word (isWord_bool b) hrest]
      cases b <;> rfl
    | integer n =>
      rw [lineChars, value?_word (isNumber_integer n).isWord hrest,
        word?_integer (by simpa [Value.isLegible] using hlegible)]
      rfl
    | float x =>
      have hfinite : x.isFinite = true := by simpa [Value.isLegible] using hlegible
      rw [lineChars, value?_word (isNumber_float hfinite).isWord hrest, word?_float hfinite]
      rfl
    | text s =>
      rw [lineChars, value?_quotedChars s hrest]
      rfl
    | array items =>
      rw [Value.isLegible, Value.areLegible_iff] at hlegible
      exact value?_array hlegible fun v hv => ih (hlegible v hv)
    | object fields =>
      have hfields := hlegible
      rw [Value.isLegible, Bool.and_eq_true, Value.haveLegible_iff] at hfields
      exact value?_object hlegible fun field hfield => ih (hfields.2 field hfield)

end Toml

end Filewise
