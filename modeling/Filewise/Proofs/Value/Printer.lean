import Filewise.Json.Token
import Filewise.Proofs.Number.Layout
import Filewise.Value.Printer
import Std.Data.String.ToInt

/-!
# The compact text of a value tells the value

A text between quotes is read back as it was, and numbers end where no character of a number
follows. Reading what stands in front therefore tells what value it is, and where its text ends.
Floating-point numbers that JSON has no text for are left out.

## Main definitions

* `Value.isJson`: the values that JSON can hold.

## Main results

* `Json.readText_quote`: a text between quotes is read back.
* `Value.eq_of_compactChars`: values whose texts stand in front of the same text are the same.
* `Value.eq_of_compactOptions`: options with the same text are the same.
-/

namespace Filewise

/-! ### Texts between quotes -/

namespace Json

variable {c : Char} {s t : String} {rest rest' : List Char}

theorem hexValue?_hexDigit {n : Nat} (h : n < 16) : hexValue? (hexDigit n) = some n := by
  have hall : ∀ n < 16, hexValue? (hexDigit n) = some n := by decide
  exact hall n h

/-- The escape of a control character is read back. -/
theorem readEscape_control (h : c.toNat < 0x20) (rest : List Char) :
    readEscape ('u' :: '0' :: '0' :: hexDigit (c.toNat / 16) :: hexDigit (c.toNat % 16) :: rest) =
      .ok (c, rest) := by
  have hhigh := hexValue?_hexDigit (show c.toNat / 16 < 16 by omega)
  have hlow := hexValue?_hexDigit (show c.toNat % 16 < 16 by omega)
  have hzero : hexValue? '0' = some 0 := by decide
  have hnumber : hexNumber? ['0', '0', hexDigit (c.toNat / 16), hexDigit (c.toNat % 16)] =
      some c.toNat := by
    simp [hexNumber?, hhigh, hlow, hzero]
    omega
  have hbytes : ∀ a b : Char, ¬byteCount ('0' :: '0' :: a :: b :: rest) < 4 := by
    intro a b
    have ha := Char.utf8Size_pos a
    have hb := Char.utf8Size_pos b
    have hzeroSize : Char.utf8Size '0' = 1 := by decide
    simp only [byteCount, String.ofList_cons, String.utf8ByteSize_append,
      String.utf8ByteSize_singleton, hzeroSize]
    omega
  have hread : readHex ('0' :: '0' :: hexDigit (c.toNat / 16) :: hexDigit (c.toNat % 16) :: rest) =
      .ok (c.toNat, rest) := by
    rw [readHex, if_neg (hbytes _ _)]
    simp only [hnumber]
  rw [readEscape, readUnicodeEscape, hread]
  simp only [bind, Except.bind, pure, Except.pure]
  rw [if_neg (by omega), if_neg (by omega), Char.ofNat_toNat]

/-- What is written for a character is read back as the character. -/
theorem readChars_escape (bound : Nat) (done : List Char) (c : Char) (rest : List Char) :
    readChars (bound + 1) done (escape c ++ rest) = readChars bound (c :: done) rest := by
  have hescape : ∀ text, readEscape text = .ok (c, rest) →
      readChars (bound + 1) done ('\\' :: text) = readChars bound (c :: done) rest := by
    intro text htext
    rw [readChars, if_neg (by decide), if_pos rfl, htext]
    rfl
  unfold escape
  split_ifs with hquote hbackslash hline hreturn htab hback hfeed hcontrol
  · exact hescape _ (by rw [hquote]; rfl)
  · exact hescape _ (by rw [hbackslash]; rfl)
  · exact hescape _ (by rw [hline]; rfl)
  · exact hescape _ (by rw [hreturn]; rfl)
  · exact hescape _ (by rw [htab]; rfl)
  · exact hescape _ (by rw [hback]; rfl)
  · exact hescape _ (by rw [hfeed]; rfl)
  · exact hescape _ (readEscape_control hcontrol rest)
  · rw [List.singleton_append, readChars, if_neg hquote, if_neg hbackslash, if_neg hcontrol]

theorem readChars_flatMap_escape (chars : List Char) {bound : Nat} (h : chars.length < bound)
    (done rest : List Char) :
    readChars bound done (chars.flatMap escape ++ '"' :: rest) =
      .ok (done.reverse ++ chars, rest) := by
  induction chars generalizing bound done with
  | nil =>
    obtain ⟨bound, rfl⟩ := Nat.exists_eq_add_of_lt h
    rw [List.flatMap_nil, List.nil_append, readChars, if_pos rfl, List.append_nil]
  | cons c chars ih =>
    obtain ⟨bound, rfl⟩ : ∃ k, bound = k + 1 := ⟨bound - 1, by omega⟩
    rw [List.length_cons] at h
    rw [List.flatMap_cons, List.append_assoc, readChars_escape, ih (by omega)]
    simp

theorem length_le_flatMap_escape (chars : List Char) :
    chars.length ≤ (chars.flatMap escape).length := by
  induction chars with
  | nil => simp
  | cons c chars ih =>
    have hpos : 0 < (escape c).length := by
      unfold escape
      split_ifs <;> simp
    rw [List.flatMap_cons, List.length_append, List.length_cons]
    omega

/-- A text between quotes is read back. -/
theorem readText_quote (s : String) (rest : List Char) :
    readText (s.toList.flatMap escape ++ '"' :: rest) = .ok (s, rest) := by
  have hlength := length_le_flatMap_escape s.toList
  have hbound : s.toList.length < (s.toList.flatMap escape ++ '"' :: rest).length + 1 := by
    rw [List.length_append]
    omega
  rw [readText, readChars_flatMap_escape s.toList hbound]
  simp [bind, Except.bind, pure, Except.pure]

/-- A text between quotes that stands in front of something is known. -/
theorem eq_of_quote (h : quote s ++ rest = quote t ++ rest') : s = t ∧ rest = rest' := by
  have hread := readText_quote s rest
  have hread' := readText_quote t rest'
  simp only [quote, List.cons_append, List.append_assoc, List.cons.injEq, true_and,
    List.nil_append] at h
  rw [h, hread'] at hread
  simpa [eq_comm] using hread

end Json

namespace Value

open FloatLayout

/-! ### Values that JSON can hold -/

mutual

/-- Whether JSON can hold a value: all its floating-point numbers are finite. -/
def isJson : Value → Bool
  | .float x => x.isFinite
  | .array items => areJson items
  | .object fields => haveJson fields
  | .null | .bool _ | .integer _ | .text _ => true

/-- Whether JSON can hold some values. -/
def areJson : List Value → Bool
  | [] => true
  | item :: rest => isJson item && areJson rest

/-- Whether JSON can hold the values of some fields. -/
def haveJson : List (String × Value) → Bool
  | [] => true
  | (_, item) :: rest => isJson item && haveJson rest

end

/-! ### Numbers -/

variable {v w : Value} {x y : Double} {n m : Int} {rest rest' : List Char}

/-- The text of a number, if the value is one. -/
def numberText? : Value → Option (List Char)
  | .integer n => some (toString n).toList
  | .float x => some (json.write x).toList
  | _ => none

/-- No character of a number follows. -/
def EndsNumber (rest : List Char) : Prop := ∀ c, rest.head? = some c → isNumberChar c = false

/-- An integer is written with digits, behind a sign if it is negative. -/
theorem toString_integer (n : Int) : ∃ sign digits, (toString n).toList = sign ++ digits ∧
    (sign = [] ∨ sign = ['-']) ∧ digits ≠ [] ∧ ∀ c ∈ digits, c.isDigit = true := by
  have hdigits : ∀ k : Nat, k.repr.toList ≠ [] ∧ ∀ c ∈ k.repr.toList, c.isDigit = true := by
    intro k
    rw [Nat.toList_repr]
    exact ⟨Nat.toDigits_ne_nil, fun c hc => Nat.isDigit_of_mem_toDigits (by decide) (by decide) hc⟩
  have htext : toString n = n.repr := rfl
  rw [htext, Int.repr_eq_if]
  split_ifs
  · exact ⟨[], _, rfl, Or.inl rfl, hdigits _⟩
  · exact ⟨['-'], _, by rw [String.toList_append]; rfl, Or.inr rfl, hdigits _⟩

/-- The text of a number begins with a digit or a sign. -/
theorem exists_of_numberText? {text : List Char} (hv : v.isJson = true)
    (h : v.numberText? = some text) :
    (∃ c more, text = c :: more ∧ (c = '-' ∨ c.isDigit = true)) ∧
      ∀ c ∈ text, isNumberChar c = true := by
  cases v with
  | integer n =>
    obtain ⟨sign, digits, hsplit, hsign, hne, hdigits⟩ := toString_integer n
    obtain ⟨d, digits, rfl⟩ := List.exists_cons_of_ne_nil hne
    rw [← Option.some_inj.mp h, hsplit]
    have hchars : ∀ c ∈ d :: digits, isNumberChar c = true :=
      fun c hc => isNumberChar_of_isDigit (hdigits c hc)
    rcases hsign with rfl | rfl
    · exact ⟨⟨d, digits, rfl, Or.inr (hdigits d List.mem_cons_self)⟩, hchars⟩
    · refine ⟨⟨'-', d :: digits, rfl, Or.inl rfl⟩, fun c hc => ?_⟩
      rcases List.mem_cons.mp hc with rfl | hc
      · rfl
      · exact hchars c hc
  | float x =>
    obtain ⟨⟨c, more, htext, hdigit⟩, -, hchars⟩ := isMagnitude_json x
    rw [← Option.some_inj.mp h, toList_write _ (by simpa [isJson] using hv)]
    split_ifs
    · refine ⟨⟨'-', _, rfl, Or.inl rfl⟩, fun c hc => ?_⟩
      rcases List.mem_cons.mp hc with rfl | hc
      · rfl
      · exact hchars c hc
    · exact ⟨⟨c, more, htext, Or.inr hdigit⟩, hchars⟩
  | _ => simp [numberText?] at h

/-- No floating-point number is written as an integer. -/
theorem toString_ne_write_json (hx : x.isFinite = true) : toString n ≠ json.write x := by
  intro h
  obtain ⟨sign, digits, hsplit, hsign, -, hdigits⟩ := toString_integer n
  obtain ⟨-, ⟨c, hc, hmark⟩, -⟩ := isMagnitude_json x
  have hmem : c ∈ (toString n).toList := by
    rw [h, toList_write _ hx]
    exact List.mem_append_right _ hc
  rw [hsplit] at hmem
  rcases List.mem_append.mp hmem with hmem | hmem
  · rcases hsign with rfl | rfl
    · simp at hmem
    · obtain rfl := List.mem_singleton.mp hmem
      revert hmark
      decide
  · have hdigit := hdigits c hmem
    rcases hmark with rfl | rfl
    · revert hdigit
      decide
    · revert hdigit
      decide

/-- Numbers with the same text are the same. -/
theorem eq_of_numberText? {text : List Char} (hv : v.isJson = true) (hw : w.isJson = true)
    (h : v.numberText? = some text) (h' : w.numberText? = some text) : v = w := by
  cases v <;> cases w <;> simp only [numberText?, Option.some.injEq, reduceCtorEq] at h h'
  · have hrepr := String.toList_inj.mp (h.trans h'.symm)
    rw [Int.repr_injective hrepr]
  · exact absurd (String.toList_inj.mp (h.trans h'.symm))
      (toString_ne_write_json (by simpa [isJson] using hw))
  · exact absurd (String.toList_inj.mp (h'.trans h.symm))
      (toString_ne_write_json (by simpa [isJson] using hv))
  · rw [eq_of_write_json_eq (by simpa [isJson] using hv) (by simpa [isJson] using hw)
      (String.toList_inj.mp (h.trans h'.symm))]

/-! ### Values -/

/-- What the first character of a text says about the value. -/
inductive Shape where
  | null
  | truth (b : Bool)
  | number
  | text
  | array
  | object
  deriving DecidableEq

/-- What the text of a value says at its first character. -/
def shape : Value → Shape
  | .null => .null
  | .bool b => .truth b
  | .integer _ | .float _ => .number
  | .text _ => .text
  | .array _ => .array
  | .object _ => .object

/-- What a first character says about the value. -/
def shapeAt? (c : Char) : Option Shape :=
  if c = 'n' then some .null
  else if c = 't' then some (.truth true)
  else if c = 'f' then some (.truth false)
  else if c = '"' then some .text
  else if c = '[' then some .array
  else if c = '\x7b' then some .object
  else if c = '-' ∨ c.isDigit = true then some .number
  else none

/-- The first character of the text of a value says what the value is. -/
theorem exists_shapeAt? (h : v.isJson = true) :
    ∃ c more, v.compactChars = c :: more ∧ shapeAt? c = some v.shape := by
  have hnumber : ∀ {text}, v.numberText? = some text → v.compactChars = text →
      v.shape = .number → ∃ c more, v.compactChars = c :: more ∧ shapeAt? c = some v.shape := by
    intro text htext hchars hshape
    obtain ⟨⟨c, more, rfl, hc⟩, -⟩ := exists_of_numberText? h htext
    refine ⟨c, more, hchars, ?_⟩
    have hdigits : c ≠ 'n' ∧ c ≠ 't' ∧ c ≠ 'f' ∧ c ≠ '"' ∧ c ≠ '[' ∧ c ≠ '\x7b' := by
      refine ⟨?_, ?_, ?_, ?_, ?_, ?_⟩ <;> rintro rfl <;> revert hc <;> decide
    obtain ⟨h1, h2, h3, h4, h5, h6⟩ := hdigits
    rw [shapeAt?, if_neg h1, if_neg h2, if_neg h3, if_neg h4, if_neg h5, if_neg h6, if_pos hc,
      hshape]
  cases v with
  | integer n => exact hnumber rfl (by rw [compactChars]) rfl
  | float x => exact hnumber rfl (by rw [compactChars]) rfl
  | null => exact ⟨'n', _, by rw [compactChars], rfl⟩
  | bool b => cases b <;> exact ⟨_, _, by rw [compactChars], rfl⟩
  | text s => exact ⟨'"', _, by rw [compactChars, Json.quote]; rfl, rfl⟩
  | array items => exact ⟨'[', _, by rw [compactChars]; rfl, rfl⟩
  | object fields => exact ⟨'\x7b', _, by rw [compactChars]; rfl, rfl⟩

/-- Values whose texts stand in front of the same text have the same shape. -/
theorem shape_eq_of_compactChars (hv : v.isJson = true) (hw : w.isJson = true)
    (h : v.compactChars ++ rest = w.compactChars ++ rest') : v.shape = w.shape := by
  obtain ⟨c, more, hc, hshape⟩ := exists_shapeAt? hv
  obtain ⟨c', more', hc', hshape'⟩ := exists_shapeAt? hw
  rw [hc, hc', List.cons_append, List.cons_append] at h
  obtain ⟨rfl, -⟩ := List.cons.inj h
  exact Option.some_inj.mp (hshape.symm.trans hshape')

/-! ### Lists -/

/-- Texts with commas between them. -/
def joined {α : Type} (write : α → List Char) : List α → List Char
  | [] => []
  | [a] => write a
  | a :: b :: rest => write a ++ ',' :: joined write (b :: rest)

theorem joined_cons {α : Type} (write : α → List Char) (a : α) (as : List α) :
    joined write (a :: as) = write a ++ if as = [] then [] else ',' :: joined write as := by
  cases as with
  | nil => simp [joined]
  | cons b as => rw [joined, if_neg (List.cons_ne_nil _ _)]

/-- Where each text is known and known to end, a list of them is known from the text that ends with
its closing. -/
theorem eq_of_joined {α : Type} {write : α → List Char} {close : Char} {as bs : List α}
    (hclose : close ≠ ',' ∧ isNumberChar close = false)
    (hfirst : ∀ a ∈ as ++ bs, ∃ c more, write a = c :: more ∧ c ≠ close)
    (hwrite : ∀ a ∈ as, ∀ b ∈ bs, ∀ rest rest', EndsNumber rest → EndsNumber rest' →
      write a ++ rest = write b ++ rest' → a = b ∧ rest = rest')
    (h : joined write as ++ close :: rest = joined write bs ++ close :: rest') :
    as = bs ∧ rest = rest' := by
  induction as generalizing bs with
  | nil =>
    cases bs with
    | nil => exact ⟨rfl, (List.cons.inj h).2⟩
    | cons b bs =>
      obtain ⟨c, more, hc, hne⟩ := hfirst b (by simp)
      rw [joined_cons, hc] at h
      exact absurd (List.cons.inj h).1.symm hne
  | cons a as ih =>
    cases bs with
    | nil =>
      obtain ⟨c, more, hc, hne⟩ := hfirst a (by simp)
      rw [joined_cons, hc] at h
      exact absurd (List.cons.inj h).1 hne
    | cons b bs =>
      have hends : ∀ (as : List α) rest,
          EndsNumber ((if as = [] then [] else ',' :: joined write as) ++ close :: rest) := by
        intro as rest c hc
        split_ifs at hc
        · obtain rfl := Option.some_inj.mp hc
          exact hclose.2
        · obtain rfl := Option.some_inj.mp hc
          rfl
      rw [joined_cons, joined_cons, List.append_assoc, List.append_assoc] at h
      obtain ⟨rfl, hafter⟩ := hwrite a List.mem_cons_self b List.mem_cons_self _ _
        (hends as rest) (hends bs rest') h
      -- both lists end here, or both go on behind a comma
      split_ifs at hafter with has hbs hbs
      · exact ⟨by rw [has, hbs], (List.cons.inj hafter).2⟩
      · exact absurd (List.cons.inj hafter).1 hclose.1
      · exact absurd (List.cons.inj hafter).1.symm hclose.1
      · obtain ⟨rfl, hrest⟩ := ih
          (fun c hc => hfirst c (by
            rcases List.mem_append.mp hc with hc | hc <;> simp [hc]))
          (fun c hc d hd => hwrite c (List.mem_cons_of_mem _ hc) d (List.mem_cons_of_mem _ hd))
          (List.cons.inj hafter).2
        exact ⟨rfl, hrest⟩

theorem compactItems_eq (items : List Value) : compactItems items = joined compactChars items := by
  induction items with
  | nil => rw [compactItems, joined]
  | cons item rest ih =>
    cases rest with
    | nil => rw [compactItems, joined]
    | cons next rest => rw [compactItems, joined, ih]

/-- The text of a field. -/
def compactField (field : String × Value) : List Char :=
  Json.quote field.1 ++ ':' :: compactChars field.2

theorem compactFields_eq (fields : List (String × Value)) :
    compactFields fields = joined compactField fields := by
  induction fields with
  | nil => rw [compactFields, joined]
  | cons field rest ih =>
    obtain ⟨name, item⟩ := field
    cases rest with
    | nil => rw [compactFields, joined, compactField]
    | cons next rest =>
      obtain ⟨name', next⟩ := next
      rw [compactFields, joined, ih, compactField]

theorem isJson_of_areJson {items : List Value} (h : areJson items = true) (hv : v ∈ items) :
    v.isJson = true := by
  induction items with
  | nil => simp at hv
  | cons item rest ih =>
    rw [areJson, Bool.and_eq_true] at h
    rcases List.mem_cons.mp hv with rfl | hv
    · exact h.1
    · exact ih h.2 hv

theorem isJson_of_haveJson {fields : List (String × Value)} {field : String × Value}
    (h : haveJson fields = true) (hfield : field ∈ fields) : field.2.isJson = true := by
  induction fields with
  | nil => simp at hfield
  | cons first rest ih =>
    obtain ⟨name, item⟩ := first
    rw [haveJson, Bool.and_eq_true] at h
    rcases List.mem_cons.mp hfield with rfl | hfield
    · exact h.1
    · exact ih h.2 hfield

/-! ### Values with the same text -/

/-- The text of a value that stands in front of another text is known, and so is that text. -/
def IsTold (v w : Value) : Prop := ∀ rest rest', EndsNumber rest → EndsNumber rest' →
  v.compactChars ++ rest = w.compactChars ++ rest' → v = w ∧ rest = rest'

theorem eq_of_compactItems {items items' : List Value} (hitems : areJson items = true)
    (hitems' : areJson items' = true) (htold : ∀ a ∈ items, ∀ b ∈ items', a.IsTold b)
    (h : compactItems items ++ ']' :: rest = compactItems items' ++ ']' :: rest') :
    items = items' ∧ rest = rest' := by
  rw [compactItems_eq, compactItems_eq] at h
  refine eq_of_joined ⟨by decide, by decide⟩ (fun item hitem => ?_) htold h
  have hjson : item.isJson = true := (List.mem_append.mp hitem).elim
    (isJson_of_areJson hitems) (isJson_of_areJson hitems')
  obtain ⟨c, more, hc, hat⟩ := exists_shapeAt? hjson
  refine ⟨c, more, hc, ?_⟩
  rintro rfl
  exact absurd hat (by simp [shapeAt?])

theorem eq_of_compactFields {fields fields' : List (String × Value)}
    (htold : ∀ a ∈ fields, ∀ b ∈ fields', a.2.IsTold b.2)
    (h : compactFields fields ++ '\x7d' :: rest = compactFields fields' ++ '\x7d' :: rest') :
    fields = fields' ∧ rest = rest' := by
  rw [compactFields_eq, compactFields_eq] at h
  refine eq_of_joined ⟨by decide, by decide⟩ (fun field _ => ?_) (fun a ha b hb => ?_) h
  · exact ⟨'"', _, by rw [compactField, Json.quote]; rfl, by decide⟩
  · intro rest rest' hends hends' heq
    rw [compactField, compactField, List.append_assoc, List.append_assoc] at heq
    obtain ⟨hname, hitem⟩ := Json.eq_of_quote heq
    obtain ⟨hvalue, hsame⟩ := htold a ha b hb _ _ hends hends' (List.cons.inj hitem).2
    exact ⟨Prod.ext hname hvalue, hsame⟩

/-- Numbers whose texts stand in front of the same text are the same. -/
theorem isTold_of_numberText? {text text' : List Char} (hv : v.isJson = true)
    (hw : w.isJson = true) (htext : v.numberText? = some text)
    (htext' : w.numberText? = some text') (hchars : v.compactChars = text)
    (hchars' : w.compactChars = text') : v.IsTold w := by
  intro rest rest' hends hends' heq
  obtain ⟨-, hnumber⟩ := exists_of_numberText? hv htext
  obtain ⟨-, hnumber'⟩ := exists_of_numberText? hw htext'
  rw [hchars, hchars'] at heq
  obtain ⟨rfl, hsame⟩ := Text.eq_of_append_runs hnumber hnumber' hends hends' heq
  exact ⟨eq_of_numberText? hv hw htext htext', hsame⟩

/-- Values whose texts stand in front of the same text are the same, and so is what follows. -/
theorem eq_of_compactChars (hv : v.isJson = true) (hw : w.isJson = true) : v.IsTold w := by
  -- the induction is on the size of the value, as values are nested in lists
  induction hsize : sizeOf v using Nat.strong_induction_on generalizing v w with
  | _ size ih
  intro rest rest' hrest hrest' h
  have hshape := shape_eq_of_compactChars hv hw h
  cases v <;> cases w <;> simp only [shape, reduceCtorEq, Shape.truth.injEq] at hshape
  case null.null => exact ⟨rfl, List.append_cancel_left h⟩
  case bool.bool b b' =>
    obtain rfl := hshape
    exact ⟨rfl, List.append_cancel_left h⟩
  case integer.integer | integer.float | float.integer | float.float =>
    exact isTold_of_numberText? hv hw rfl rfl (by rw [compactChars]) (by rw [compactChars])
      _ _ hrest hrest' h
  case text.text s t =>
    rw [compactChars, compactChars] at h
    obtain ⟨rfl, hsame⟩ := Json.eq_of_quote h
    exact ⟨rfl, hsame⟩
  case array.array items items' =>
    simp only [compactChars, List.cons_append, List.append_assoc, List.cons.injEq, true_and,
      List.nil_append] at h
    have htold : ∀ a ∈ items, ∀ b ∈ items', a.IsTold b := by
      intro a ha b hb
      have hlt := List.sizeOf_lt_of_mem ha
      simp only [Value.array.sizeOf_spec] at hsize
      exact ih (sizeOf a) (by omega) (isJson_of_areJson hv ha) (isJson_of_areJson hw hb) rfl
    obtain ⟨rfl, hsame⟩ := eq_of_compactItems hv hw htold h
    exact ⟨rfl, hsame⟩
  case object.object fields fields' =>
    simp only [compactChars, List.cons_append, List.append_assoc, List.cons.injEq, true_and,
      List.nil_append] at h
    have htold : ∀ a ∈ fields, ∀ b ∈ fields', a.2.IsTold b.2 := by
      rintro ⟨name, item⟩ ha b hb
      have hlt := List.sizeOf_lt_of_mem ha
      simp only [Prod.mk.sizeOf_spec] at hlt
      simp only [Value.object.sizeOf_spec] at hsize
      exact ih (sizeOf item) (by omega) (isJson_of_haveJson hv ha) (isJson_of_haveJson hw hb) rfl
    obtain ⟨rfl, hsame⟩ := eq_of_compactFields htold h
    exact ⟨rfl, hsame⟩

/-- Options with the same text are the same. -/
theorem eq_of_compactOptions {options options' : Options} (h : haveJson options = true)
    (h' : haveJson options' = true) (htext : compactOptions options = compactOptions options') :
    options = options' := by
  have hends : EndsNumber [] := by simp [EndsNumber]
  have hchars : (object options).compactChars ++ [] = (object options').compactChars ++ [] := by
    rw [List.append_nil, List.append_nil]
    exact String.ofList_injective htext
  obtain ⟨heq, -⟩ := eq_of_compactChars (by rwa [isJson]) (by rwa [isJson]) _ _ hends hends hchars
  exact Value.object.inj heq

end Value

end Filewise
