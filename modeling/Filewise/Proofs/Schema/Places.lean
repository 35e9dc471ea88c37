import Filewise.Proofs.Dict
import Filewise.Proofs.Path.Components
import Filewise.Schema.Standard

/-!
# Where a schema refuses a value

Whatever a schema refuses lies in the value that is checked: the place of a failure goes down from
item to item and from field to field, and a part of the value is there. Written as a pointer, the
place can be read back, whatever characters the names of the fields have.

## Main definitions

* `Value.HasPlace`: the places at which a value has a part.
* `Schema.readPointer?`: reads a pointer.
* `Schema.Compiler.PointsInside`: whatever a compiled schema refuses is a part of the value.
* `Schema.IsWithin`: a failure that lies in the value at a place.

## Main results

* `Schema.readPointer?_pointer`: a pointer tells its place.
* `Schema.isWithin_failuresOf`: what a keyword refuses, if inner schemas refuse parts only.
* `Schema.pointsInside_standardCompiler`: the standard compiler points to parts of the value only.
-/

namespace Filewise

/-- A value has a part at a place: the place names a field or counts an item at each step. -/
inductive Value.HasPlace : Value → List String → Prop
  | here (v : Value) : HasPlace v []
  | item {items : List Value} {i : Nat} {v : Value} {place : List String} :
      items[i]? = some v → HasPlace v place → HasPlace (.array items) (toString i :: place)
  | field {fields : List (String × Value)} {name : String} {v : Value} {place : List String} :
      (name, v) ∈ fields → HasPlace v place → HasPlace (.object fields) (name :: place)

namespace Schema

variable {check : Checker} {keywords fields : List (String × Value)} {items : List Value}
  {keyword text : String} {schema argument value : Value} {place : List String} {f : Failure}

/-! ### Pointers -/

/-- A name as it is read in a pointer: a tilde only stands before the digit that tells what it
stands for. -/
def unescape? : List Char → Option (List Char)
  | [] => some []
  | '~' :: '0' :: rest => (unescape? rest).map ('~' :: ·)
  | '~' :: '1' :: rest => (unescape? rest).map ('/' :: ·)
  | c :: rest => if c = '~' then none else (unescape? rest).map (c :: ·)

/-- The place that a text points to: it is empty, or each name follows a slash. -/
def readPointer? (text : String) : Option (List String) :=
  match text.toList.splitOn '/' with
  | [] :: names => names.mapM fun name => (unescape? name).map String.ofList
  | _ => none

/-- A name is read as it was. -/
theorem unescape?_escapeName (name : String) :
    unescape? (escapeName name).toList = some name.toList := by
  rw [escapeName, String.toList_ofList]
  induction name.toList with
  | nil => rfl
  | cons c rest ih =>
    rw [List.flatMap_cons]
    split_ifs with htilde hslash
    · simp [unescape?, ih, htilde]
    · simp [unescape?, ih, hslash]
    · simp [unescape?, ih, htilde]

/-- No slash is left in a name. -/
theorem slash_notMem_escapeName (name : String) : '/' ∉ (escapeName name).toList := by
  rw [escapeName, String.toList_ofList, List.mem_flatMap]
  rintro ⟨c, -, hc⟩
  split_ifs at hc with htilde hslash
  · simp at hc
  · simp at hc
  · exact hslash (List.mem_singleton.mp hc).symm

theorem toList_pointer (place : List String) :
    (pointer place).toList = place.flatMap fun name => '/' :: (escapeName name).toList := by
  simp [pointer, String.toList_join, List.flatMap_map]

theorem splitOn_pointer (place : List String) :
    (pointer place).toList.splitOn '/' = [] :: place.map fun name => (escapeName name).toList := by
  rw [toList_pointer]
  induction place with
  | nil => rfl
  | cons name place ih =>
    -- the next slash behind a name is the one before the next name
    rw [List.flatMap_cons, List.cons_append, List.splitOn_cons_eq_if_modifyHead, if_pos (by simp),
      Path.splitOn_append_of_notMem (slash_notMem_escapeName name), ih]
    simp

/-- A pointer tells its place. -/
theorem readPointer?_pointer (place : List String) :
    readPointer? (pointer place) = some place := by
  rw [readPointer?, splitOn_pointer]
  induction place with
  | nil => rfl
  | cons name place ih =>
    dsimp only at ih ⊢
    rw [List.map_cons, List.mapM_cons, unescape?_escapeName, ih]
    simp

/-! ### Failures in a value -/

/-- A failure lies in the value that stands at a place. -/
def IsWithin (value : Value) (place : List String) (f : Failure) : Prop :=
  ∃ inner, f.place = place ++ inner ∧ value.HasPlace inner

/-- Whatever a checker refuses lies in the value it checks. -/
def StaysWithin (check : Checker) : Prop :=
  ∀ schema value place, ∀ f ∈ check schema value place, IsWithin value place f

theorem isWithin_here (h : f.place = place) : IsWithin value place f :=
  ⟨[], by rw [h, List.append_nil], .here value⟩

/-- A text has no parts. -/
theorem IsWithin.place_eq (h : IsWithin (.text text) place f) : f.place = place := by
  obtain ⟨inner, hplace, hinner⟩ := h
  cases hinner
  rw [hplace, List.append_nil]

theorem IsWithin.of_field {name : String} (hfield : (name, value) ∈ fields)
    (h : IsWithin value (place ++ [name]) f) : IsWithin (.object fields) place f := by
  obtain ⟨inner, hplace, hinner⟩ := h
  exact ⟨name :: inner, by simp [hplace], hinner.field hfield⟩

theorem IsWithin.of_item {itemPlace : List String}
    (hitem : (itemPlace, value) ∈ placed place items) (h : IsWithin value itemPlace f) :
    IsWithin (.array items) place f := by
  obtain ⟨⟨v, i⟩, hi, heq⟩ := List.mem_map.mp hitem
  obtain ⟨rfl, rfl⟩ := Prod.mk.inj heq
  obtain ⟨inner, hplace, hinner⟩ := h
  exact ⟨toString i :: inner, by simp [hplace], hinner.item (List.mem_zipIdx_iff_getElem?.mp hi)⟩

theorem isWithin_of_refuseUnless {condition : Bool} {refused : Value} {refusal : Refusal}
    (h : f ∈ refuseUnless condition place refused refusal) : IsWithin value place f := by
  unfold refuseUnless at h
  split_ifs at h
  · simp at h
  · rw [List.mem_singleton] at h
    exact isWithin_here (by rw [h])

/-- A limit that is no number refuses nothing. -/
theorem isWithin_of_elim {α : Type} {limit : Option α} {refuse : α → List Failure}
    (h : f ∈ limit.elim [] refuse) (hrefuse : ∀ a, f ∈ refuse a → IsWithin value place f) :
    IsWithin value place f := by
  cases limit with
  | none => simp at h
  | some a => exact hrefuse a h

/-! ### Keywords -/

theorem isWithin_of_missing {names : List Value} (h : f ∈ missing names fields place) :
    IsWithin value place f := by
  obtain ⟨name, -, hf⟩ := List.mem_flatMap.mp h
  exact isWithin_of_refuseUnless hf

theorem isWithin_numberFailures (h : f ∈ numberFailures keyword argument value place) :
    IsWithin value place f := by
  unfold numberFailures at h
  split at h
  · split at h
    · exact isWithin_of_refuseUnless h
    · exact isWithin_of_refuseUnless h
    · exact isWithin_of_refuseUnless h
    · exact isWithin_of_refuseUnless h
    · split at h
      · exact isWithin_of_refuseUnless h
      · simp at h
    · simp at h
  · simp at h

theorem isWithin_textFailures (h : f ∈ textFailures keyword argument text place) :
    IsWithin (.text text) place f := by
  unfold textFailures at h
  dsimp only at h
  split at h
  · exact isWithin_of_refuseUnless h
  · exact isWithin_of_refuseUnless h
  · exact isWithin_of_elim h fun n => isWithin_of_refuseUnless
  · exact isWithin_of_elim h fun n => isWithin_of_refuseUnless
  · simp at h

/-- What is refused in the items of a list. -/
theorem isWithin_eachItem (hcheck : StaysWithin check) {chosen : List (List String × Value)}
    (hchosen : ∀ e ∈ chosen, e ∈ placed place items) (h : f ∈ eachItem check schema chosen) :
    IsWithin (.array items) place f := by
  obtain ⟨⟨itemPlace, v⟩, hitem, hf⟩ := List.mem_flatMap.mp h
  exact (hcheck _ _ _ f hf).of_item (hchosen _ hitem)

theorem isWithin_listFailures (hcheck : StaysWithin check)
    (h : f ∈ listFailures check keywords keyword argument items place) :
    IsWithin (.array items) place f := by
  unfold listFailures at h
  dsimp only at h
  split at h
  · obtain ⟨⟨schema, itemPlace, v⟩, hitem, hf⟩ := List.mem_flatMap.mp h
    exact (hcheck _ _ _ f hf).of_item (List.of_mem_zip hitem).2
  · exact isWithin_eachItem hcheck (fun _ => id) h
  · exact isWithin_of_elim h fun n => isWithin_of_refuseUnless
  · exact isWithin_of_elim h fun n => isWithin_eachItem hcheck fun _ => List.mem_of_mem_drop
  · exact isWithin_of_refuseUnless h
  · exact isWithin_of_refuseUnless h
  · exact isWithin_of_elim h fun n => isWithin_of_refuseUnless
  · exact isWithin_of_elim h fun n => isWithin_of_refuseUnless
  · simp at h

/-- What is refused where further properties are checked or refused. -/
theorem isWithin_closedProperties (hcheck : StaysWithin check) {other : Option Value}
    (h : f ∈ closedProperties check keywords other value fields place) :
    IsWithin (.object fields) place f := by
  unfold closedProperties at h
  extract_lets declared extra at h
  -- declared properties are checked by their own schemas, any others by the schema given for them
  have hdeclared : ∀ f ∈ declared, IsWithin (.object fields) place f := by
    intro f hf
    obtain ⟨⟨name, v⟩, hfield, hf⟩ := List.mem_flatMap.mp hf
    dsimp only at hf
    split at hf
    · exact (hcheck _ _ _ f hf).of_field hfield
    · obtain ⟨schema, -, hf⟩ := List.mem_flatMap.mp hf
      exact (hcheck _ _ _ f hf).of_field hfield
  split_ifs at h
  · exact hdeclared f h
  · obtain ⟨_, -, rfl⟩ := List.mem_map.mp h
    exact isWithin_here rfl
  · rcases List.mem_append.mp h with h | h
    · exact hdeclared f h
    · rw [List.mem_singleton] at h
      exact isWithin_here (by rw [h])

theorem isWithin_objectFailures (hcheck : StaysWithin check)
    (h : f ∈ objectFailures check keywords keyword argument fields place) :
    IsWithin (.object fields) place f := by
  unfold objectFailures at h
  dsimp only at h
  split at h
  · exact isWithin_closedProperties hcheck h
  · exact isWithin_closedProperties hcheck h
  · -- a schema for a named property is for the field with this name
    split_ifs at h
    · simp at h
    · obtain ⟨⟨name, schema⟩, -, hf⟩ := List.mem_flatMap.mp h
      cases hfield : Dict.find? fields name with
      | none => simp [hfield] at hf
      | some v =>
        rw [hfield, Option.elim_some] at hf
        exact (hcheck _ _ _ f hf).of_field (Dict.mem_of_find? hfield)
  · split_ifs at h
    · simp at h
    · obtain ⟨⟨pattern, schema⟩, -, hf⟩ := List.mem_flatMap.mp h
      obtain ⟨⟨name, v⟩, hfield, hf⟩ := List.mem_flatMap.mp hf
      exact (hcheck _ _ _ f hf).of_field (List.mem_filter.mp hfield).1
  · exact isWithin_of_refuseUnless h
  · -- the name of a property is checked in the place of the object
    obtain ⟨⟨name, v⟩, -, hf⟩ := List.mem_flatMap.mp h
    exact isWithin_here (hcheck _ _ _ f hf).place_eq
  · -- what depends on a property is asked of the object
    obtain ⟨⟨name, dependency⟩, -, hf⟩ := List.mem_flatMap.mp h
    dsimp only at hf
    split_ifs at hf
    · split at hf
      · exact isWithin_of_missing hf
      · exact hcheck _ _ _ f hf
    · simp at hf
  · exact isWithin_of_missing h
  · exact isWithin_of_elim h fun n => isWithin_of_refuseUnless
  · exact isWithin_of_elim h fun n => isWithin_of_refuseUnless
  · simp at h

theorem isWithin_generalFailures (hcheck : StaysWithin check)
    (h : f ∈ generalFailures check keywords keyword argument value place) :
    IsWithin value place f := by
  unfold generalFailures at h
  dsimp only at h
  split at h
  · exact isWithin_of_refuseUnless h
  · exact isWithin_of_refuseUnless h
  · exact isWithin_of_refuseUnless h
  · exact isWithin_of_refuseUnless h
  · obtain ⟨schema, -, hf⟩ := List.mem_flatMap.mp h
    exact hcheck _ _ _ f hf
  · exact isWithin_of_refuseUnless h
  · split at h
    · rw [List.mem_singleton] at h
      exact isWithin_here (by rw [h])
    · simp at h
    · rw [List.mem_singleton] at h
      exact isWithin_here (by rw [h])
  · exact isWithin_of_refuseUnless h
  · exact isWithin_of_elim h fun schema => hcheck _ _ _ f
  · simp at h

/-- What one keyword refuses lies in the value, if what inner schemas refuse does. -/
theorem isWithin_failuresOf (hcheck : StaysWithin check)
    (h : f ∈ failuresOf check keywords keyword argument value place) :
    IsWithin value place f := by
  rcases List.mem_append.mp h with h | h
  · exact isWithin_generalFailures hcheck h
  · split at h
    · exact isWithin_textFailures h
    · exact isWithin_listFailures hcheck h
    · exact isWithin_objectFailures hcheck h
    · exact isWithin_numberFailures h

/-! ### Schemas -/

/-- At every depth, a schema refuses parts of the value only. -/
theorem staysWithin_failuresWithin (root : Value) (depth : Nat) :
    StaysWithin (failuresWithin root depth) := by
  induction depth with
  | zero =>
    intro schema value place f hf
    simp [failuresWithin] at hf
  | succ depth ih =>
    intro schema value place f hf
    unfold failuresWithin at hf
    split at hf
    · rw [List.mem_singleton] at hf
      exact isWithin_here (by rw [hf])
    · split at hf
      · -- what a reference stands for is checked in the same place
        split at hf
        · exact ih _ _ _ f hf
        · rw [List.mem_singleton] at hf
          exact isWithin_here (by rw [hf])
      · obtain ⟨⟨keyword, argument⟩, -, hf⟩ := List.mem_flatMap.mp hf
        exact isWithin_failuresOf ih hf
    · simp at hf

/-- Everything that a schema refuses has its place in the value. -/
theorem hasPlace_of_mem_failures (h : f ∈ failures schema value) : value.HasPlace f.place := by
  obtain ⟨inner, hplace, hinner⟩ := staysWithin_failuresWithin schema _ _ _ _ f h
  rwa [hplace, List.nil_append]

/-- The place of whatever a compiled schema refuses is the way to a part of the value that is
checked. -/
def Compiler.PointsInside [Compiler] : Prop :=
  ∀ schema findings, compile schema = .ok findings →
    ∀ value, ∀ f ∈ findings value, value.HasPlace f.place

theorem pointsInside_standardCompiler : standardCompiler.PointsInside := by
  intro schema findings hcompile value f hf
  simp only [Compiler.compile] at hcompile
  split at hcompile
  · simp at hcompile
  · obtain rfl := Except.ok.inj hcompile
    obtain ⟨failure, hfailure, rfl⟩ := List.mem_map.mp hf
    exact hasPlace_of_mem_failures hfailure

end Schema

end Filewise
