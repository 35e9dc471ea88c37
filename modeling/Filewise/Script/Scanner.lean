import Filewise.Script.Segment

/-!
# Reading a script once

A script is read once from left to right. What is left of it is written down on
the way, and lines are counted. Nothing is ever read again: a literal is copied
character by character, and a comment is kept aside until it is known what is left
of it.

## Main definitions

* `Scanner`: what is known of a script up to the next character.
* `Scanner.step`: reads the segment that starts with a character.
* `Scanner.run`: reads a script to its end, or up to an opening that is never closed.

## Main results

* `Scanner.step_eq`: one step reads the next segment and leaves what is left of it.
* `Scanner.run_eq`: what is left of a script is what is left of its segments.
-/

namespace Filewise.Script

/-- What is known of a script up to the next character. -/
structure Scanner where
  /-- What is left of all that was read. -/
  output : String
  /-- The line of the next character. -/
  line : Nat
  context : Context
  deriving DecidableEq

/-- The line after a character. -/
def lineAfter (line : Nat) (c : Char) : Nat := if c = '\n' then line + 1 else line

namespace Scanner

/-- Nothing was read. -/
def start : Scanner := ⟨"", 1, .start⟩

/-- Reads a character that is left. -/
def copy (s : Scanner) (c : Char) : Scanner :=
  { s with output := s.output.push c, line := lineAfter s.line c }

/-- The scanner after a literal. -/
def endLiteral (s : Scanner) : Scanner := { s with context := ⟨.literal, false⟩ }

/-- The scanner after a comment, which ends a word. -/
def endComment (s : Scanner) : Scanner := { s with context := ⟨s.context.last, false⟩ }

/-- Reads a character of code. -/
def copyCode (s : Scanner) (c : Char) : Scanner :=
  { s.copy c with context := s.context.afterCode c }

/-- Reads a string literal up to its closing quote. -/
def copyString (quote : Char) (s : Scanner) : List Char → Option (Scanner × List Char)
  | [] => none
  | '\\' :: [] => none
  | '\\' :: c :: rest => copyString quote ((s.copy '\\').copy c) rest
  | c :: rest =>
    if c = '\n' ∧ quote ≠ '`' then none
    else if c = quote then some (s.copy c, rest)
    else copyString quote (s.copy c) rest

/-- Reads the flags of a regular expression. -/
def copyFlags (s : Scanner) : List Char → Scanner × List Char
  | [] => (s, [])
  | c :: rest => if Text.isAsciiLetter c then copyFlags (s.copy c) rest else (s, c :: rest)

/-- Reads a regular expression literal up to its flags. -/
def copyRegex (inBrackets : Bool) (s : Scanner) : List Char → Option (Scanner × List Char)
  | [] => none
  | '\\' :: [] => none
  | '\\' :: c :: rest => copyRegex inBrackets ((s.copy '\\').copy c) rest
  | c :: rest =>
    if c = '\n' then none
    else if c = '/' ∧ ¬ inBrackets then some ((s.copy c).copyFlags rest)
    else copyRegex (bracketsAfter inBrackets c) (s.copy c) rest

/-- Reads a block comment after its opening: the comment, the line after it, and
what follows. -/
def readComment (body : String) (line : Nat) : List Char → Option (String × Nat × List Char)
  | [] => none
  | '*' :: '/' :: rest => some ((body.push '*').push '/', line, rest)
  | c :: rest => readComment (body.push c) (lineAfter line c) rest

/-- Reads a block comment after its opening and leaves what is left of it. -/
def readBlockComment (keepLicenses : Bool) (s : Scanner) (rest : List Char) :
    Option (Scanner × List Char) :=
  let keep := keepLicenses && rest.head? == some '!'
  match readComment "/*" s.line rest with
  | some (body, line, rest) =>
    let kept := if keep then body else String.ofList (body.toList.filter (· == '\n'))
    some ({ s with output := s.output ++ kept, line }, rest)
  | none => none

/-- Reads the segment that starts with a character, and tells what follows it. -/
def step (keepLicenses : Bool) (s : Scanner) (c : Char) (rest : List Char) :
    Except Unterminated (Scanner × List Char) :=
  if c = '"' ∨ c = '\'' ∨ c = '`' then
    match (s.copy c).copyString c rest with
    | some (s, rest) => .ok (s.endLiteral, rest)
    | none => .error ⟨.string, s.line⟩
  else if c = '/' ∧ rest.head? = some '/' then .ok (s.endComment, rest.dropWhile (· ≠ '\n'))
  else if c = '/' ∧ rest.head? = some '*' then
    match s.readBlockComment keepLicenses rest.tail with
    | some (s, rest) => .ok (s.endComment, rest)
    | none => .error ⟨.blockComment, s.line⟩
  else if c = '/' ∧ s.context.last.allowsRegex then
    match (s.copy c).copyRegex false rest with
    | some (s, rest) => .ok (s.endLiteral, rest)
    | none => .error ⟨.regex, s.line⟩
  else .ok (s.copyCode c, rest)

/-! ### Steps read segments -/

/-- The scanner after characters that are left. -/
def copyAll (s : Scanner) (chars : List Char) : Scanner :=
  { s with output := s.output ++ String.ofList chars, line := s.line + chars.count '\n' }

/-- The scanner after a segment. -/
def after (keepLicenses : Bool) (s : Scanner) (segment : Segment) : Scanner :=
  { output := s.output ++ String.ofList (segment.render keepLicenses)
    line := s.line + segment.chars.count '\n'
    context := s.context.after segment }

@[simp] theorem push_append_ofList (output : String) (c : Char) (chars : List Char) :
    output.push c ++ String.ofList chars = output ++ String.ofList (c :: chars) := by
  simp [← String.toList_inj]

/-- Lines are counted character by character. -/
@[simp] theorem lineAfter_add_count (line : Nat) (c : Char) (chars : List Char) :
    lineAfter line c + chars.count '\n' = line + (c :: chars).count '\n' := by
  rw [lineAfter, List.count_cons]
  split
  · next hc => simp [hc]; omega
  · next hc => simp [hc]

@[simp] theorem copyAll_nil (s : Scanner) : s.copyAll [] = s := by simp [copyAll]

@[simp] theorem copyAll_copy (s : Scanner) (c : Char) (chars : List Char) :
    (s.copy c).copyAll chars = s.copyAll (c :: chars) := by
  simp only [copyAll, copy, push_append_ofList, lineAfter_add_count]

/-- A string literal is copied as it is cut off. -/
theorem copyString_eq (quote : Char) (s : Scanner) (text : List Char) :
    s.copyString quote text =
      (stringBody? quote text).map fun parts => (s.copyAll parts.1, parts.2) := by
  fun_induction copyString quote s text with
  | case1 | case2 => rfl
  | case3 s c rest ih => simp [ih, stringBody?, consFirst, Function.comp_def]
  | case4 s c rest hend hescape hline => simp [stringBody?, hline]
  | case5 s rest hend hescape hline => simp [stringBody?, hline, ← copyAll_copy]
  | case6 s c rest hend hescape hline hopen ih =>
    rw [ih, stringBody?, if_neg hline, if_neg hopen]
    · simp [consFirst, Function.comp_def]
    · exact hend
    · exact hescape

theorem copyFlags_eq (s : Scanner) (text : List Char) :
    s.copyFlags text =
      (s.copyAll (text.takeWhile Text.isAsciiLetter), text.dropWhile Text.isAsciiLetter) := by
  induction text generalizing s with
  | nil => simp [copyFlags]
  | cons c rest ih =>
    unfold copyFlags
    split
    · next hc => simp [ih, hc]
    · next hc => simp [hc]

/-- A regular expression literal is copied as it is cut off. -/
theorem copyRegex_eq (inBrackets : Bool) (s : Scanner) (text : List Char) :
    s.copyRegex inBrackets text =
      (regexBody? inBrackets text).map fun parts => (s.copyAll parts.1, parts.2) := by
  fun_induction copyRegex inBrackets s text with
  | case1 | case2 => rfl
  | case3 inBrackets s c rest ih => simp [ih, regexBody?, consFirst, Function.comp_def]
  | case4 => simp [regexBody?]
  | case5 inBrackets s c rest hend hescape hline hclose =>
    rw [regexBody?, if_neg hline, if_pos hclose, copyFlags_eq, copyAll_copy]
    · rfl
    · exact hend
    · exact hescape
  | case6 inBrackets s c rest hend hescape hline hopen ih =>
    rw [ih, regexBody?, if_neg hline, if_neg hopen]
    · simp [consFirst, Function.comp_def]
    · exact hend
    · exact hescape

/-- A block comment is read as it is cut off. -/
theorem readComment_eq (body : String) (line : Nat) (text : List Char) :
    readComment body line text = (commentBody? text).map fun parts =>
      (body ++ String.ofList parts.1, line + parts.1.count '\n', parts.2) := by
  fun_induction readComment body line text with
  | case1 => rfl
  | case2 body line rest =>
    have hbody : (body.push '*').push '/' = body ++ String.ofList ['*', '/'] := by
      rw [← push_append_ofList, ← push_append_ofList, String.ofList_nil, String.append_empty]
    rw [commentBody?, hbody]
    rfl
  | case3 body line c rest hclose ih =>
    rw [ih, commentBody?]
    · simp [consFirst, Function.comp_def]
    · exact hclose

/-- A block comment tells by its first character whether it is a license. -/
theorem isLicense_eq {text body rest : List Char} (h : commentBody? text = some (body, rest)) :
    isLicense ('/' :: '*' :: body) = (text.head? == some '!') := by
  rw [commentBody?_eq_append h]
  cases body with
  | nil =>
    unfold commentBody? at h
    split at h
    · simp at h
    · simp at h
    · obtain ⟨_, hcons, -⟩ := eq_of_map_consFirst h
      simp at hcons
  | cons c body => simp [isLicense]

/-- Nothing is left of a comment that ends before the end of its line. -/
theorem after_lineComment {chars : List Char} (keepLicenses : Bool) (s : Scanner)
    (h : '\n' ∉ chars) : s.after keepLicenses (.lineComment chars) = s.endComment := by
  simp [after, endComment, Segment.render, Segment.chars, Context.after, List.count_eq_zero.mpr h]

theorem after_code (keepLicenses : Bool) (s : Scanner) (c : Char) :
    s.after keepLicenses (.code c) = s.copyCode c := by
  have hcopy := copyAll_copy s c []
  rw [copyAll_nil] at hcopy
  rw [copyCode, hcopy]
  rfl

/-- Of a block comment is left what is left of the segment. -/
theorem readBlockComment_eq (keepLicenses : Bool) (s : Scanner) (text : List Char) :
    (s.readBlockComment keepLicenses text).map (fun found => (found.1.endComment, found.2)) =
      (commentBody? text).map fun parts =>
        (s.after keepLicenses (.blockComment ('/' :: '*' :: parts.1)), parts.2) := by
  unfold readBlockComment
  rw [readComment_eq]
  cases hbody : commentBody? text with
  | none => rfl
  | some parts =>
    obtain ⟨body, rest⟩ := parts
    have hopening : "/*" ++ String.ofList body = String.ofList ('/' :: '*' :: body) := by
      simp [← String.toList_inj]
    have hlines : s.line + body.count '\n' = s.line + ('/' :: '*' :: body).count '\n' := by simp
    simp only [Option.map_some, hopening, hlines, ← isLicense_eq hbody, endComment, after,
      Segment.render, Segment.chars, String.toList_ofList, Context.after]
    split <;> rfl

/-- One step reads the next segment and leaves what is left of it. -/
theorem step_eq (keepLicenses : Bool) (s : Scanner) (c : Char) (rest : List Char) :
    s.step keepLicenses c rest =
      match next? s.context c rest with
      | .ok (segment, rest) => .ok (s.after keepLicenses segment, rest)
      | .error opening => .error ⟨opening, s.line⟩ := by
  unfold step
  -- a step branches as the reader of segments does, so each branch is about one kind of segment
  fun_cases next? s.context c rest with
  | case1 hquote body after hbody =>
    rw [if_pos hquote, copyString_eq, hbody, Option.map_some]
    simp only [copyAll_copy]
    rfl
  | case2 hquote hbody => rw [if_pos hquote, copyString_eq, hbody, Option.map_none]
  | case3 hquote hline =>
    have hnot : '\n' ∉ c :: rest.takeWhile (· ≠ '\n') := by
      simp only [List.mem_cons, not_or]
      exact ⟨by simp [hline.1], fun hmem => by
        simpa using List.all_eq_true.mp List.all_takeWhile _ hmem⟩
    rw [if_neg hquote, if_pos hline]
    simp only [after_lineComment keepLicenses s hnot]
  | case4 hquote hline hblock body after hbody =>
    have hread := readBlockComment_eq keepLicenses s rest.tail
    rw [hbody, Option.map_some, Option.map_eq_some_iff] at hread
    obtain ⟨⟨s', rest'⟩, hread, heq⟩ := hread
    rw [if_neg hquote, if_neg hline, if_pos hblock, hread]
    simp_all
  | case5 hquote hline hblock hbody =>
    have hread := readBlockComment_eq keepLicenses s rest.tail
    rw [hbody, Option.map_none, Option.map_eq_none_iff] at hread
    rw [if_neg hquote, if_neg hline, if_pos hblock, hread]
  | case6 hquote hline hblock hregex body after hbody =>
    rw [if_neg hquote, if_neg hline, if_neg hblock, if_pos hregex, copyRegex_eq, hbody,
      Option.map_some]
    simp only [copyAll_copy]
    rfl
  | case7 hquote hline hblock hregex hbody =>
    rw [if_neg hquote, if_neg hline, if_neg hblock, if_pos hregex, copyRegex_eq, hbody,
      Option.map_none]
  | case8 hquote hline hblock hregex =>
    rw [if_neg hquote, if_neg hline, if_neg hblock, if_neg hregex]
    simp only [after_code]

/-- What follows a step is shorter than the text. -/
theorem length_lt_of_step {keepLicenses : Bool} {s s' : Scanner} {c : Char}
    {rest rest' : List Char} (h : s.step keepLicenses c rest = .ok (s', rest')) :
    rest'.length < (c :: rest).length := by
  rw [step_eq] at h
  split at h
  · next segment after hnext =>
    obtain ⟨-, rfl⟩ := Prod.mk.inj (Except.ok.inj h)
    exact length_lt_of_next hnext
  · simp at h

/-! ### Runs read scripts -/

/-- Reads a script to its end, or up to the first opening that is never closed. -/
def run (keepLicenses : Bool) (s : Scanner) : List Char → Except Unterminated String
  | [] => .ok s.output
  | c :: rest =>
    match _h : s.step keepLicenses c rest with
    | .error u => .error u
    | .ok (s, rest) => s.run keepLicenses rest
termination_by text => text.length
decreasing_by exact length_lt_of_step (by assumption)

theorem run_of_error {keepLicenses : Bool} {s : Scanner} {c : Char} {rest : List Char}
    {u : Unterminated} (h : s.step keepLicenses c rest = .error u) :
    s.run keepLicenses (c :: rest) = .error u := by
  rw [run]
  split <;> simp_all

theorem run_of_ok {keepLicenses : Bool} {s s' : Scanner} {c : Char} {rest rest' : List Char}
    (h : s.step keepLicenses c rest = .ok (s', rest')) :
    s.run keepLicenses (c :: rest) = s'.run keepLicenses rest' := by
  rw [run]
  split
  · simp_all
  · next t after hstep =>
    obtain ⟨rfl, rfl⟩ := Prod.mk.inj (Except.ok.inj (h.symm.trans hstep))
    rfl

/-- What is left of a script is what is left of its segments, one after the other. -/
theorem run_eq (keepLicenses : Bool) (s : Scanner) (text : List Char) :
    s.run keepLicenses text = (segmentsFrom s.context s.line text).map fun found =>
      s.output ++ String.ofList (found.flatMap (·.render keepLicenses)) := by
  fun_induction run keepLicenses s text with
  | case1 s => simp [segmentsFrom, Except.map]
  | case2 s c rest u hstep =>
    rw [step_eq] at hstep
    split at hstep
    · simp at hstep
    · next opening hnext =>
      rw [segmentsFrom_of_error hnext, ← Except.error.inj hstep]
      rfl
  | case3 s c rest s' rest' hstep ih =>
    rw [step_eq] at hstep
    split at hstep
    · next segment after hnext =>
      obtain ⟨rfl, rfl⟩ := Prod.mk.inj (Except.ok.inj hstep)
      rw [ih, segmentsFrom_of_ok hnext]
      simp only [Scanner.after]
      cases segmentsFrom (s.context.after segment) (s.line + segment.chars.count '\n') after with
      | error u => rfl
      | ok found => simp [Except.map, String.append_assoc]
    · simp at hstep

end Scanner

end Filewise.Script
