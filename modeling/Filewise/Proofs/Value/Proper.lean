import Filewise.Number.Word
import Filewise.Proofs.Dict
import Filewise.Value

/-!
# Proper values

A value that was read lists the fields of each object in ascending order of their names, its
integers have 64 bits and its floating-point numbers are finite. Putting the fields of any value in
order leaves such a value as it is.

## Main definitions

* `Value.isProper`: the values that can be read.
* `Value.sorted`: a value with all its fields in ascending order.

## Main results

* `Value.sorted_eq_self`: a proper value is in order.
-/

namespace Filewise

namespace Value

/-! ### Values -/

mutual

/-- Whether a value can be read: the fields of its objects are in ascending order, its integers
have 64 bits, with a sign or without, and its floating-point numbers are finite. -/
def isProper : Value → Bool
  | .integer n => -(Word.signedBound : Int) ≤ n && n < (Word.unsignedBound : Int)
  | .float x => x.isFinite
  | .array items => areProper items
  | .object fields => decide (Dict.Ordered fields) && haveProper fields
  | .null | .bool _ | .text _ => true

/-- Whether some values can be read. -/
def areProper : List Value → Bool
  | [] => true
  | item :: rest => isProper item && areProper rest

/-- Whether the values of some fields can be read. -/
def haveProper : List (String × Value) → Bool
  | [] => true
  | (_, item) :: rest => isProper item && haveProper rest

end

theorem haveProper_iff {fields : List (String × Value)} :
    haveProper fields = true ↔ ∀ field ∈ fields, field.2.isProper = true := by
  induction fields with
  | nil => simp [haveProper]
  | cons field rest ih =>
    obtain ⟨name, v⟩ := field
    simp [haveProper, ih]

mutual

/-- A value with all its fields in ascending order. -/
def sorted : Value → Value
  | .array items => .array (sortedItems items)
  | .object fields => .object (Dict.ofList (sortedFields fields))
  | v => v

/-- Values with all their fields in ascending order. -/
def sortedItems : List Value → List Value
  | [] => []
  | item :: rest => sorted item :: sortedItems rest

/-- Fields whose values have all their fields in ascending order. -/
def sortedFields : List (String × Value) → List (String × Value)
  | [] => []
  | (name, item) :: rest => (name, sorted item) :: sortedFields rest

end

theorem sortedItems_eq_map (items : List Value) : sortedItems items = items.map sorted := by
  induction items with
  | nil => rfl
  | cons item rest ih => rw [sortedItems, ih, List.map_cons]

theorem sortedFields_eq_map (fields : List (String × Value)) :
    sortedFields fields = fields.map fun (name, v) => (name, sorted v) := by
  induction fields with
  | nil => rfl
  | cons field rest ih => rw [sortedFields, ih, List.map_cons]

mutual

/-- A proper value is in order. -/
theorem sorted_eq_self : ∀ {v : Value}, v.isProper = true → v.sorted = v
  | .array items, h => by rw [sorted, sortedItems_eq_self (by simpa [isProper] using h)]
  | .object fields, h => by
    simp only [isProper, Bool.and_eq_true, decide_eq_true_eq] at h
    rw [sorted, sortedFields_eq_self h.2, Dict.ofList_eq_self h.1]
  | .null, _ | .bool _, _ | .integer _, _ | .float _, _ | .text _, _ => rfl

theorem sortedItems_eq_self :
    ∀ {items : List Value}, areProper items = true → sortedItems items = items
  | [], _ => rfl
  | item :: rest, h => by
    simp only [areProper, Bool.and_eq_true] at h
    rw [sortedItems, sorted_eq_self h.1, sortedItems_eq_self h.2]

theorem sortedFields_eq_self :
    ∀ {fields : List (String × Value)}, haveProper fields = true → sortedFields fields = fields
  | [], _ => rfl
  | (name, item) :: rest, h => by
    simp only [haveProper, Bool.and_eq_true] at h
    rw [sortedFields, sorted_eq_self h.1, sortedFields_eq_self h.2]

end

end Value

end Filewise
