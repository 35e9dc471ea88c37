/-!
# Dictionaries with ordered keys

A dictionary is the list of its entries in ascending order of the keys, each key
once. Texts are ordered by their code points, which is also the order of their
UTF-8 bytes. Going through a dictionary therefore always follows the keys,
whatever the history that built it.

## Main definitions

* `Dict.insert`, `Dict.find?`, `Dict.overlay`, `Dict.ofList`.
* `Dict.Ordered`: the keys ascend strictly; `insert` keeps this.

## Main results

* `Dict.find?_insert`: what a dictionary answers after an insertion.
* `Dict.ordered_insert`, `Dict.ordered_ofList`.
-/

namespace Filewise

/-- Entries in ascending order of their keys. -/
abbrev Dict (α : Type) := List (String × α)

namespace Dict

variable {α : Type}

/-- The value stored for a key. -/
def find? : Dict α → String → Option α
  | [], _ => none
  | (k, a) :: rest, key => if k = key then some a else find? rest key

/-- Whether a key has a value. -/
def contains (d : Dict α) (key : String) : Bool := (d.find? key).isSome

/-- The keys in ascending order. -/
def keys (d : Dict α) : List String := d.map Prod.fst

/-- Stores a value for a key, in place of an earlier one. -/
def insert : Dict α → String → α → Dict α
  | [], key, a => [(key, a)]
  | (k, b) :: rest, key, a =>
    if key < k then (key, a) :: (k, b) :: rest
    else if key = k then (key, a) :: rest
    else (k, b) :: insert rest key a

/-- Stores all entries of a second dictionary over those of the first. -/
def overlay (d e : Dict α) : Dict α := e.foldl (fun d (k, a) => d.insert k a) d

/-- The dictionary of a list of entries; of two with one key the later one stays. -/
def ofList (entries : List (String × α)) : Dict α := overlay [] entries

/-- The keys ascend strictly. -/
def Ordered (d : Dict α) : Prop := d.keys.Pairwise (· < ·)

@[simp] theorem find?_nil (key : String) : find? ([] : Dict α) key = none := rfl

theorem find?_cons (k : String) (a : α) (rest : Dict α) (key : String) :
    find? ((k, a) :: rest) key = if k = key then some a else find? rest key := rfl

/-- After an insertion the key has the new value and every other key its old one. -/
theorem find?_insert (d : Dict α) (key key' : String) (a : α) :
    (d.insert key a).find? key' = if key = key' then some a else d.find? key' := by
  induction d with
  | nil => simp [insert, find?]
  | cons entry rest ih =>
    obtain ⟨k, b⟩ := entry
    unfold insert
    split
    · simp [find?]
    · split
      · subst_vars
        by_cases h : k = key' <;> simp [find?, h]
      · rename_i hne
        by_cases h : k = key'
        · have : ¬ key = key' := fun h' => hne (h'.trans h.symm)
          simp [find?, h, this]
        · simp [find?, h, ih]

/-- The keys after an insertion are the old ones and the inserted one. -/
theorem mem_keys_insert (d : Dict α) (key key' : String) (a : α) :
    key' ∈ (d.insert key a).keys ↔ key' = key ∨ key' ∈ d.keys := by
  induction d with
  | nil => simp [insert, keys]
  | cons entry rest ih =>
    obtain ⟨k, b⟩ := entry
    unfold insert
    split
    · simp [keys]
    · split
      · subst_vars
        simp [keys]
      · simp only [keys, List.map_cons, List.mem_cons] at ih ⊢
        rw [ih]
        constructor <;> rintro (h | h | h) <;> simp [h]

theorem ordered_nil : Ordered ([] : Dict α) := List.Pairwise.nil

/-- Insertion keeps the keys in strictly ascending order. -/
theorem ordered_insert {d : Dict α} (h : d.Ordered) (key : String) (a : α) :
    (d.insert key a).Ordered := by
  induction d with
  | nil => simp [insert, Ordered, keys]
  | cons entry rest ih =>
    obtain ⟨k, b⟩ := entry
    obtain ⟨hk, hrest⟩ := List.pairwise_cons.mp h
    unfold insert
    split
    · rename_i hlt
      refine List.pairwise_cons.mpr ⟨?_, h⟩
      intro k' hk'
      rcases List.mem_cons.mp hk' with rfl | hk'
      · exact hlt
      · exact String.lt_trans hlt (hk k' hk')
    · split
      · subst_vars
        exact List.pairwise_cons.mpr ⟨hk, hrest⟩
      · rename_i hnlt hne
        refine List.pairwise_cons.mpr ⟨?_, ih hrest⟩
        intro k' hk'
        rcases (mem_keys_insert rest key k' a).mp hk' with rfl | hk'
        · exact Std.not_le.mp fun hle =>
            hne (Std.le_antisymm hle (Std.not_lt.mp hnlt))
        · exact hk k' hk'

theorem ordered_overlay {d : Dict α} (h : d.Ordered) (e : Dict α) : (d.overlay e).Ordered := by
  induction e generalizing d with
  | nil => exact h
  | cons entry rest ih => exact ih (ordered_insert h entry.1 entry.2)

theorem ordered_ofList (entries : List (String × α)) : (ofList entries).Ordered :=
  ordered_overlay ordered_nil entries

end Dict

end Filewise
