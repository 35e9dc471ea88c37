import Filewise.Proofs.Toml.Build

/-!
# Reading documents that were written

The document of a table says the table, whatever is in it: its values come back with the fields of
all tables in ascending order. Only nesting sets a limit. The reader goes to a fixed depth, so a
document is read exactly if no key of it has too many parts and no value in a line is nested too
deeply.

## Main definitions

* `Toml.isShallow`: the tables whose documents are not nested too deeply.

## Main results

* `Toml.toValue_nodeOf`: the node of a value is the value in order.
* `Toml.read?_linesText`: which documents are read, and as what.
* `Toml.isShallow_of_fieldDepth_lt`: nesting of values bounds the nesting of lines.
-/

namespace Filewise.Toml

variable {described : List (String × Value)}

/-! ### Values of nodes -/

theorem fieldValues_eq_map (fields : Fields) :
    fieldValues fields = fields.map fun p => (p.1, p.2.toValue) := by
  induction fields with
  | nil => rfl
  | cons field rest ih => rw [fieldValues, ih, List.map_cons]

/-- What is assigned and the tables inside are all fields of a table. -/
theorem perm_sortedFields (described : List (String × Value)) :
    (assignedTo described ++
      (described.filter fun p => hasHeaders p.2).map fun p => (p.1, p.2.sorted)).Perm
      (Value.sortedFields described) := by
  rw [assignedTo, Value.sortedFields_eq_map, ← List.map_append]
  refine List.Perm.map _ (List.perm_append_comm.trans ?_)
  exact List.filter_append_perm _ _

/-- The values of the nodes in a table are its fields in order. -/
theorem ofList_fieldValues (hnodup : (described.map Prod.fst).Nodup)
    (htables : fieldValues (tableNodes described) =
      (described.filter fun p => hasHeaders p.2).map fun p => (p.1, p.2.sorted)) :
    Dict.ofList (fieldValues (leaves (assignedTo described) ++ tableNodes described)) =
      Dict.ofList (Value.sortedFields described) := by
  have hvalues : fieldValues (leaves (assignedTo described) ++ tableNodes described) =
      assignedTo described ++
        (described.filter fun p => hasHeaders p.2).map fun p => (p.1, p.2.sorted) := by
    rw [← htables, fieldValues_eq_map, List.map_append, ← fieldValues_eq_map (tableNodes described),
      leaves, List.map_map]
    exact congrArg (· ++ _) (List.map_id _)
  rw [hvalues]
  refine (Dict.ofList_eq_of_perm (perm_sortedFields described).symm ?_).symm
  rw [Dict.keys, Value.sortedFields_eq_map, List.map_map]
  exact hnodup

mutual

/-- The node of a value is the value in order. -/
theorem toValue_nodeOf : ∀ v : Value, v.isLegible = true → hasHeaders v = true →
    (nodeOf v).toValue = v.sorted
  | .object described, hlegible, _ => by
    simp only [Value.isLegible, Bool.and_eq_true, decide_eq_true_eq] at hlegible
    rw [nodeOf, Node.toValue, Value.sorted,
      ofList_fieldValues hlegible.1 (fieldValues_tableNodes described hlegible.2)]
  | .array items, hlegible, hheaders => by
    have htables := hheaders
    simp only [hasHeaders, Bool.and_eq_true, List.all_eq_true] at htables
    rw [nodeOf, if_pos hheaders, Node.toValue, Value.sorted,
      itemValues_itemNodes items (by simpa [Value.isLegible] using hlegible) htables.2]
  | .null, _, h | .bool _, _, h | .integer _, _, h | .float _, _, h | .text _, _, h =>
    absurd h Bool.false_ne_true

theorem fieldValues_tableNodes : ∀ described : List (String × Value),
    Value.haveLegible described = true → fieldValues (tableNodes described) =
      (described.filter fun p => hasHeaders p.2).map fun p => (p.1, p.2.sorted)
  | [], _ => rfl
  | (name, v) :: rest, hlegible => by
    simp only [Value.haveLegible, Bool.and_eq_true] at hlegible
    have hrest := fieldValues_tableNodes rest hlegible.2
    rw [tableNodes]
    by_cases hheaders : hasHeaders v = true
    · rw [if_pos hheaders, fieldValues, toValue_nodeOf v hlegible.1 hheaders, hrest,
        List.filter_cons_of_pos (by exact hheaders), List.map_cons]
    · rw [if_neg hheaders, hrest, List.filter_cons_of_neg (by exact hheaders)]

theorem itemValues_itemNodes : ∀ items : List Value, Value.areLegible items = true →
    (∀ v ∈ items, isTable v = true) → itemValues (itemNodes items) = Value.sortedItems items
  | [], _, _ => rfl
  | .object described :: rest, hlegible, htables => by
    simp only [Value.areLegible, Value.isLegible, Bool.and_eq_true, decide_eq_true_eq] at hlegible
    rw [itemNodes, itemValues, Value.sortedItems, Value.sorted,
      ofList_fieldValues hlegible.1.1 (fieldValues_tableNodes described hlegible.1.2),
      itemValues_itemNodes rest hlegible.2 fun v hv => htables v (List.mem_cons_of_mem _ hv)]
  | .array _ :: _, _, h | .null :: _, _, h | .bool _ :: _, _, h | .integer _ :: _, _, h
  | .float _ :: _, _, h | .text _ :: _, _, h => absurd (h _ List.mem_cons_self) Bool.false_ne_true

end

/-! ### Documents -/

theorem isLegible_assignmentsOf (h : Value.haveLegible described = true) :
    ∀ line ∈ assignmentsOf described, line.isLegible = true := by
  intro line hline
  obtain ⟨field, hfield, rfl⟩ := List.mem_map.mp hline
  exact Value.haveLegible_iff.mp h field (List.mem_filter.mp hfield).1

theorem isLegible_headerOf (key : Key) (described : List (String × Value)) :
    ∀ line ∈ headerOf key described, line.isLegible = true := by
  intro line hline
  rw [headerOf] at hline
  split_ifs at hline
  · exact absurd hline List.not_mem_nil
  · rw [List.mem_singleton.mp hline]
    rfl

mutual

/-- TOML can carry the lines of a value that it can carry. -/
theorem isLegible_linesBelow (key : Key) : ∀ v : Value, v.isLegible = true →
    ∀ line ∈ linesBelow key v, line.isLegible = true
  | .object described, hlegible => by
    simp only [Value.isLegible, Bool.and_eq_true] at hlegible
    have htables := isLegible_linesOfTables (key.tables ++ [key.name]) described hlegible.2
    rw [linesBelow, List.forall_mem_append, List.forall_mem_append]
    exact ⟨⟨isLegible_headerOf key described, isLegible_assignmentsOf hlegible.2⟩, htables⟩
  | .array items, hlegible => by
    rw [linesBelow]
    split_ifs
    · exact isLegible_linesOfItems key items (by simpa [Value.isLegible] using hlegible)
    · exact fun line hline => absurd hline List.not_mem_nil
  | .null, _ | .bool _, _ | .integer _, _ | .float _, _ | .text _, _ =>
    fun line hline => absurd hline List.not_mem_nil

theorem isLegible_linesOfTables (tables : List String) : ∀ described : List (String × Value),
    Value.haveLegible described = true →
    ∀ line ∈ linesOfTables tables described, line.isLegible = true
  | [], _ => fun line hline => absurd hline List.not_mem_nil
  | (name, v) :: rest, hlegible => by
    simp only [Value.haveLegible, Bool.and_eq_true] at hlegible
    rw [linesOfTables, List.forall_mem_append]
    exact ⟨isLegible_linesBelow ⟨tables, name⟩ v hlegible.1,
      isLegible_linesOfTables tables rest hlegible.2⟩

theorem isLegible_linesOfItems (key : Key) : ∀ items : List Value,
    Value.areLegible items = true → ∀ line ∈ linesOfItems key items, line.isLegible = true
  | [], _ => fun line hline => absurd hline List.not_mem_nil
  | .object described :: rest, hlegible => by
    simp only [Value.areLegible, Value.isLegible, Bool.and_eq_true] at hlegible
    have htables := isLegible_linesOfTables (key.tables ++ [key.name]) described hlegible.1.2
    have hrest := isLegible_linesOfItems key rest hlegible.2
    rw [linesOfItems, List.forall_mem_append, List.forall_mem_append, List.forall_mem_cons]
    exact ⟨⟨⟨rfl, isLegible_assignmentsOf hlegible.1.2⟩, htables⟩, hrest⟩
  | .array _ :: rest, hlegible | .null :: rest, hlegible | .bool _ :: rest, hlegible
  | .integer _ :: rest, hlegible | .float _ :: rest, hlegible | .text _ :: rest, hlegible => by
    simp only [Value.areLegible, Bool.and_eq_true] at hlegible
    exact isLegible_linesOfItems key rest hlegible.2

end

/-- Whether no line of a document is nested too deeply. -/
def isShallow (described : List (String × Value)) : Bool := (linesOf described).all Line.isShallow

theorem isShallow_iff :
    isShallow described = true ↔ ∀ line ∈ linesOf described, line.isShallow = true :=
  List.all_eq_true

/-- A document is read as the table it was written for, unless it is nested too deeply. -/
theorem read?_linesText (hlegible : (Value.object described).isLegible = true) :
    read? (linesText (linesOf described)) =
      if isShallow described then some (Dict.ofList (Value.sortedFields described)) else none := by
  simp only [Value.isLegible, Bool.and_eq_true, decide_eq_true_eq] at hlegible
  have hlines : ∀ line ∈ linesOf described, line.isLegible = true := by
    rw [linesOf, List.forall_mem_append]
    exact ⟨isLegible_assignmentsOf hlegible.2, isLegible_linesOfTables [] described hlegible.2⟩
  have hsections : sections ((linesOf described).map Line.sorted) =
      ((assignedTo described).map fun p => (⟨[], p.1⟩, p.2),
        (sections ((linesOfTables [] described).map Line.sorted)).2) := by
    have hstart := startsWithHeader_linesOfTables [] described
    rw [linesOf, List.map_append, sections_append hstart.sections_eq, map_sorted_assignmentsOf,
      sections_assignments]
    rfl
  have htables := addLines_linesOfTables described hlegible.1 hlegible.2 fun _ =>
    notMem_leaves_assignedTo hlegible.1
  rw [read?, withoutMark_linesText, lines?_linesText hlines]
  by_cases hshallow : ∀ line ∈ linesOf described, line.isShallow = true
  · rw [if_pos hshallow, if_pos (isShallow_iff.mpr hshallow)]
    simp only [Option.bind_eq_bind, Option.bind_some, hsections, assignAll_assignedTo hlegible.1]
    rw [← addSections, ← addLines, htables, Option.bind_some, Option.pure_def,
      ofList_fieldValues hlegible.1 (fieldValues_tableNodes described hlegible.2)]
  · rw [if_neg hshallow, if_neg fun h => hshallow (isShallow_iff.mp h)]
    rfl

/-! ### Depth of documents -/

theorem isShallow_assignmentsOf (h : Value.fieldDepth described < deepest) :
    ∀ line ∈ assignmentsOf described, line.isShallow = true := by
  intro line hline
  obtain ⟨field, hfield, rfl⟩ := List.mem_map.mp hline
  have hkey : Key.isShallow ⟨[], field.1⟩ = true := rfl
  have hdepth : (Value.object described).depth < deepest + 1 := Nat.succ_lt_succ h
  simpa [Line.isShallow, hkey] using
    (Value.depth_object_lt.mp hdepth).2 field (List.mem_filter.mp hfield).1

theorem isShallow_headerOf {key : Key} (h : key.isShallow = true)
    (described : List (String × Value)) :
    ∀ line ∈ headerOf key described, line.isShallow = true := by
  intro line hline
  rw [headerOf] at hline
  split_ifs at hline
  · exact absurd hline List.not_mem_nil
  · rw [List.mem_singleton.mp hline]
    exact h

mutual

/-- Tables inside of tables take as much depth as their keys have parts. -/
theorem isShallow_linesBelow (key : Key) : ∀ v : Value, key.tables.length + v.depth < deepest →
    ∀ line ∈ linesBelow key v, line.isShallow = true
  | .object described, hdepth => by
    rw [Value.depth] at hdepth
    have hkey : key.isShallow = true := decide_eq_true (by omega)
    have htables := isShallow_linesOfTables (key.tables ++ [key.name]) described
      (by rw [List.length_append, List.length_singleton]; omega)
    rw [linesBelow, List.forall_mem_append, List.forall_mem_append]
    exact ⟨⟨isShallow_headerOf hkey described, isShallow_assignmentsOf (by omega)⟩, htables⟩
  | .array items, hdepth => by
    rw [Value.depth] at hdepth
    rw [linesBelow]
    split_ifs
    · exact isShallow_linesOfItems key items (by omega)
    · exact fun line hline => absurd hline List.not_mem_nil
  | .null, _ | .bool _, _ | .integer _, _ | .float _, _ | .text _, _ =>
    fun line hline => absurd hline List.not_mem_nil

theorem isShallow_linesOfTables (tables : List String) : ∀ described : List (String × Value),
    tables.length + Value.fieldDepth described < deepest →
    ∀ line ∈ linesOfTables tables described, line.isShallow = true
  | [], _ => fun line hline => absurd hline List.not_mem_nil
  | (name, v) :: rest, hdepth => by
    rw [Value.fieldDepth] at hdepth
    rw [linesOfTables, List.forall_mem_append]
    exact ⟨isShallow_linesBelow ⟨tables, name⟩ v (by simp only; omega),
      isShallow_linesOfTables tables rest (by omega)⟩

theorem isShallow_linesOfItems (key : Key) : ∀ items : List Value,
    key.tables.length + Value.itemDepth items < deepest →
    ∀ line ∈ linesOfItems key items, line.isShallow = true
  | [], _ => fun line hline => absurd hline List.not_mem_nil
  | .object described :: rest, hdepth => by
    rw [Value.itemDepth, Value.depth] at hdepth
    have hkey : key.isShallow = true := decide_eq_true (by omega)
    have htables := isShallow_linesOfTables (key.tables ++ [key.name]) described
      (by rw [List.length_append, List.length_singleton]; omega)
    have hrest := isShallow_linesOfItems key rest (by omega)
    rw [linesOfItems, List.forall_mem_append, List.forall_mem_append, List.forall_mem_cons]
    exact ⟨⟨⟨hkey, isShallow_assignmentsOf (by omega)⟩, htables⟩, hrest⟩
  | .array _ :: rest, hdepth | .null :: rest, hdepth | .bool _ :: rest, hdepth
  | .integer _ :: rest, hdepth | .float _ :: rest, hdepth | .text _ :: rest, hdepth =>
    isShallow_linesOfItems key rest (by rw [Value.itemDepth] at hdepth; omega)

end

/-- A table is read back if all that is in it is nested less deeply than the reader goes. -/
theorem isShallow_of_fieldDepth_lt (h : Value.fieldDepth described < deepest) :
    isShallow described = true := by
  rw [isShallow_iff, linesOf, List.forall_mem_append]
  exact ⟨isShallow_assignmentsOf h, isShallow_linesOfTables [] described (by simpa using h)⟩

end Filewise.Toml
