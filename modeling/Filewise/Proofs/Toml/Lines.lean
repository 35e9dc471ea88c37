import Filewise.Proofs.Toml.Inline

/-!
# Reading lines

Each line of a document is read back, the values in it with their fields in ascending order. The
first line that has a key of too many parts or a value that is nested too deeply ends the reading.

## Main definitions

* `Toml.Line.isShallow`: the lines that are not nested too deeply.
* `Toml.Line.sorted`: a line with its value in order.

## Main results

* `Toml.lines?_linesText`: the lines of a text are read back.
-/

namespace Filewise.Toml

variable {steps : ℕ} {text : List Char} {line : Line} {lines : List Line}

namespace Line

/-- Whether TOML can carry the value in a line. -/
def isLegible : Line → Bool
  | .header _ _ => true
  | .assignment _ v => v.isLegible

/-- Whether a line is read: its key has few parts and its value is not nested too deeply. -/
def isShallow : Line → Bool
  | .header _ key => key.isShallow
  | .assignment key v => key.isShallow && v.depth < deepest

/-- A line with all fields of its value in ascending order. -/
def sorted : Line → Line
  | .header isItem key => .header isItem key
  | .assignment key v => .assignment key v.sorted

end Line

/-! ### Beginnings and ends of lines -/

/-- A key begins with no character that means something to a reader of lines. -/
theorem exists_keyChars_append (key : Key) (rest : List Char) : ∃ c more,
    key.chars ++ rest = c :: more ∧
      c ∉ [' ', '\t', '\n', '\x0d', '#', '[', '\x7d', '\uFEFF'] := by
  obtain ⟨tables, name⟩ := key
  cases tables with
  | nil => exact keyChars_append_head name rest
  | cons table tables =>
    rw [Key.chars, List.flatMap_cons, List.append_assoc, List.append_assoc, List.append_assoc]
    exact keyChars_append_head table _

theorem keyChars_append_ne (key : Key) (rest more : List Char) {d : Char}
    (hd : d ∈ [' ', '\t', '\n', '\x0d', '#', '[', '\x7d', '\uFEFF']) :
    key.chars ++ rest ≠ d :: more := by
  obtain ⟨c, chars, hchars, hc⟩ := exists_keyChars_append key rest
  rw [hchars]
  rintro ⟨⟩
  exact hc hd

/-- A line begins with a bracket or with a key. -/
theorem isSolid_line (line : Line) (rest : List Char) : IsSolid (line.chars ++ rest) := by
  have hkey : ∀ key rest, IsSolid (Key.chars key ++ rest) := by
    intro key rest
    obtain ⟨c, more, heq, hc⟩ := exists_keyChars_append key rest
    rw [heq, isSolid_cons]
    exact fun hmem => hc (by simp_all)
  rcases line with ⟨_ | _, key⟩ | ⟨key, v⟩
  · exact isSolid_cons.mpr (by decide)
  · exact isSolid_cons.mpr (by decide)
  · rw [Line.chars, List.append_assoc, List.append_assoc, List.append_assoc]
    exact hkey _ _

theorem finishLine?_end (text : List Char) : finishLine? ('\n' :: text) = some text := rfl

/-! ### Lines -/

/-- The header of a table is read back. -/
theorem header?_table (key : Key) :
    header? (key.chars ++ ']' :: text) =
      if key.isShallow then some (.header false key, text) else none := by
  have hbracket : skipBlanks (']' :: text) = ']' :: text := rfl
  unfold header?
  split
  · rename_i heq
    exact absurd heq (keyChars_append_ne key _ _ (by decide))
  · rw [key?_chars key (by simp [isBare]) (by rw [hbracket]; simp), hbracket]
    split_ifs <;> rfl

/-- The header of a table in a list is read back. -/
theorem header?_item (key : Key) :
    header? ('[' :: (key.chars ++ ']' :: ']' :: text)) =
      if key.isShallow then some (.header true key, text) else none := by
  have hbracket : skipBlanks (']' :: ']' :: text) = ']' :: ']' :: text := rfl
  rw [header?, key?_chars key (by simp [isBare]) (by rw [hbracket]; simp), hbracket]
  split_ifs <;> rfl

/-- A header is read back behind its first bracket. -/
theorem exists_header?_eq (isItem : Bool) (key : Key) (text : List Char) : ∃ body,
    (Line.header isItem key).chars ++ text = '[' :: body ∧ header? body =
      if key.isShallow then some (.header isItem key, '\n' :: text) else none := by
  cases isItem with
  | false => exact ⟨key.chars ++ ']' :: '\n' :: text, by simp [Line.chars], header?_table key⟩
  | true =>
    exact ⟨'[' :: (key.chars ++ ']' :: ']' :: '\n' :: text), by simp [Line.chars],
      header?_item key⟩

/-- A line with a header is read, and then the text behind it. -/
theorem lines?_header (isItem : Bool) (key : Key) {start : List Char}
    (hstart : skipTrivia? start = some ((Line.header isItem key).chars ++ text)) :
    lines? (steps + 1) start =
      if key.isShallow then (lines? steps text).map (.header isItem key :: ·) else none := by
  obtain ⟨body, htext, hheader⟩ := exists_header?_eq isItem key text
  rw [lines?, hstart, htext]
  simp only [Option.bind_eq_bind, Option.bind_some, hheader]
  by_cases hkey : key.isShallow = true
  · simp only [hkey, ↓reduceIte, Option.bind_some, finishLine?_end]
    cases lines? steps text <;> rfl
  · simp [hkey]

/-- A line with a key and its value is read, and then the text behind it. -/
theorem lines?_assignment (key : Key) {v : Value} (hlegible : v.isLegible = true)
    {start : List Char}
    (hstart : skipTrivia? start = some ((Line.assignment key v).chars ++ text)) :
    lines? (steps + 1) start =
      if key.isShallow ∧ v.depth < deepest then
        (lines? steps text).map (.assignment key v.sorted :: ·)
      else none := by
  have htext : (Line.assignment key v).chars ++ text =
      key.chars ++ (" = ".toList ++ (lineChars v ++ '\n' :: text)) := by simp [Line.chars]
  have hvalue : Reads (value? deepest) deepest v := reads_value? hlegible
  have hread := assignment?_chars key hlegible hvalue
    (⟨'\n', text, rfl, by decide⟩ : IsEnd ('\n' :: text))
  rw [lines?, hstart, htext]
  simp only [Option.bind_eq_bind, Option.bind_some]
  split
  · rename_i hnil
    obtain ⟨c, more, heq, -⟩ := exists_keyChars_append key
      (" = ".toList ++ (lineChars v ++ '\n' :: text))
    rw [heq] at hnil
    exact absurd hnil (List.cons_ne_nil _ _)
  · rename_i hbracket
    exact absurd hbracket (keyChars_append_ne key _ _ (by decide))
  · rw [hread]
    by_cases hshallow : key.isShallow = true ∧ v.depth < deepest
    · rw [if_pos hshallow, if_pos hshallow]
      simp only [Option.bind_some, finishLine?_end]
      cases lines? steps text <;> rfl
    · rw [if_neg hshallow, if_neg hshallow]
      rfl

/-- A line is read, and then the text behind it. -/
theorem lines?_line (hlegible : line.isLegible = true) {start : List Char}
    (hstart : skipTrivia? start = some (line.chars ++ text)) :
    lines? (steps + 1) start =
      if line.isShallow then (lines? steps text).map (line.sorted :: ·) else none := by
  cases line with
  | header isItem key => exact lines?_header isItem key hstart
  | assignment key v =>
    simp only [Line.isShallow, Bool.and_eq_true, decide_eq_true_eq]
    exact lines?_assignment key hlegible hstart

/-- All lines are read if the first one is and then the others are. -/
theorem ite_isShallow_cons (line : Line) (lines : List Line) :
    (if line.isShallow = true then
      (if ∀ l ∈ lines, l.isShallow = true then some (lines.map Line.sorted) else none).map
        (line.sorted :: ·)
      else none) =
      if ∀ l ∈ line :: lines, l.isShallow = true then some ((line :: lines).map Line.sorted)
      else none := by
  have hall : (∀ l ∈ line :: lines, l.isShallow = true) ↔
      line.isShallow = true ∧ ∀ l ∈ lines, l.isShallow = true := List.forall_mem_cons
  by_cases hline : line.isShallow = true
  · rw [if_pos hline]
    by_cases hlines : ∀ l ∈ lines, l.isShallow = true
    · rw [if_pos hlines, if_pos (hall.mpr ⟨hline, hlines⟩)]
      rfl
    · rw [if_neg hlines, if_neg fun h => hlines (hall.mp h).2]
      rfl
  · rw [if_neg hline, if_neg fun h => hline (hall.mp h).1]

/-- Lines are read back, with an empty one before each header. -/
theorem lines?_spacedChars (hlegible : ∀ line ∈ lines, line.isLegible = true)
    (hsteps : lines.length < steps) : lines? steps (spacedChars lines) =
      if ∀ line ∈ lines, line.isShallow = true then some (lines.map Line.sorted) else none := by
  induction lines generalizing steps with
  | nil =>
    obtain ⟨steps, rfl⟩ := Nat.exists_eq_succ_of_ne_zero (Nat.ne_zero_of_lt hsteps)
    rfl
  | cons line lines ih =>
    obtain ⟨steps, rfl⟩ := Nat.exists_eq_succ_of_ne_zero (Nat.ne_zero_of_lt hsteps)
    obtain ⟨hline, hlegible⟩ := List.forall_mem_cons.mp hlegible
    have hstart : skipTrivia? (spacedChars (line :: lines)) =
        some (line.chars ++ spacedChars lines) := by
      have hsolid := isSolid_line line (spacedChars lines)
      rw [spacedChars, List.flatMap_cons, ← spacedChars, List.append_assoc]
      split_ifs
      · exact hsolid.skipTrivia?_line 0
      · exact hsolid.skipTrivia?_eq
    rw [lines?_line hline hstart, ih hlegible (Nat.lt_of_succ_lt_succ hsteps), ite_isShallow_cons]

theorem length_chars_pos (line : Line) : 0 < line.chars.length := by
  rcases line with ⟨_ | _, key⟩ | ⟨key, v⟩ <;> simp [Line.chars]

/-- Something is written for each line. -/
theorem length_le_length_spacedChars (lines : List Line) :
    lines.length ≤ (spacedChars lines).length := by
  induction lines with
  | nil => exact Nat.le_refl _
  | cons line lines ih =>
    have hline := length_chars_pos line
    rw [spacedChars, List.flatMap_cons, ← spacedChars]
    simp only [List.length_append, List.length_cons]
    omega

/-- The lines of a text are read back if none of them is nested too deeply. -/
theorem lines?_linesText (hlegible : ∀ line ∈ lines, line.isLegible = true) :
    lines? ((linesText lines).toList.length + 1) (linesText lines).toList =
      if ∀ line ∈ lines, line.isShallow = true then some (lines.map Line.sorted) else none := by
  cases lines with
  | nil => rfl
  | cons line lines =>
    obtain ⟨hline, hlegible⟩ := List.forall_mem_cons.mp hlegible
    have hsteps : lines.length < (line.chars ++ spacedChars lines).length := by
      have hlines := length_le_length_spacedChars lines
      have hline := length_chars_pos line
      rw [List.length_append]
      omega
    rw [linesText, String.toList_ofList, lines?_line hline (isSolid_line line _).skipTrivia?_eq,
      lines?_spacedChars hlegible hsteps, ite_isShallow_cons]

/-- A text of lines does not begin with the mark of a file. -/
theorem withoutMark_linesText (lines : List Line) :
    withoutMark (linesText lines).toList = (linesText lines).toList := by
  unfold withoutMark
  split
  · rename_i heq
    cases lines with
    | nil => simp [linesText] at heq
    | cons line lines =>
      rw [linesText, String.toList_ofList] at heq
      rcases line with ⟨_ | _, key⟩ | ⟨key, v⟩
      · simp [Line.chars] at heq
      · simp [Line.chars] at heq
      · rw [Line.chars, List.append_assoc, List.append_assoc, List.append_assoc] at heq
        exact absurd heq (keyChars_append_ne key _ _ (by decide))
  · rfl

end Filewise.Toml
