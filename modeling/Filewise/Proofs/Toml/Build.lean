import Filewise.Proofs.Toml.Lines

/-!
# Building tables from lines

A table is written with its assignments first and then the tables inside, each below headers. What
the lines of one field add to a table is one node at its end, whatever else is in the table. The
lines of a table inside a table are those it would have in a document by itself, with the name of
the outer table before their keys.

## Main definitions

* `Toml.addLines`: a table with what lines below headers describe.
* `Toml.nodeOf`: the node that a value below headers becomes.

## Main results

* `Toml.linesOfTables_append`: the lines of a table inside another.
* `Toml.addLines_linesOfTables`: the lines of tables add their nodes.
-/

namespace Filewise.Toml

variable {name : String} {node : Node} {fields : Fields} {lines : List Line}
  {described : List (String × Value)}

/-! ### Fields of tables -/

namespace Fields

/-- No entry has a name that is not among the names. -/
theorem ne_of_notMem (h : name ∉ fields.map Prod.fst) {entry : String × Node}
    (hentry : entry ∈ fields) : entry.1 ≠ name :=
  fun heq => h (List.mem_map.mpr ⟨entry, hentry, heq⟩)

theorem find?_eq_none (h : name ∉ fields.map Prod.fst) : fields.find? name = none := by
  rw [find?, List.find?_eq_none.mpr]
  · rfl
  · intro entry hentry
    simpa using ne_of_notMem h hentry

/-- A field with a new name is added at the end. -/
theorem set_eq_append (h : name ∉ fields.map Prod.fst) (node : Node) :
    fields.set name node = fields ++ [(name, node)] := by
  rw [set, if_neg]
  rw [List.any_eq_true]
  rintro ⟨entry, hentry, hname⟩
  exact ne_of_notMem h hentry (by simpa using hname)

theorem find?_append (h : name ∉ fields.map Prod.fst) (node : Node) :
    find? (fields ++ [(name, node)]) name = some node := by
  have hnone := find?_eq_none h
  rw [find?, Option.map_eq_none_iff] at hnone
  rw [find?, List.find?_append, hnone]
  simp

/-- The field at the end is changed in its place. -/
theorem set_append (h : name ∉ fields.map Prod.fst) (old node : Node) :
    set (fields ++ [(name, old)]) name node = fields ++ [(name, node)] := by
  rw [set, if_pos (by simp), List.map_append, List.map_congr_left (g := id), List.map_id]
  · simp
  · intro entry hentry
    simp [ne_of_notMem h hentry]

end Fields

/-! ### Sections -/

/-- A table with what sections describe. -/
def addSections (fields : Fields) (added : List Section) : Option Fields :=
  added.foldlM (fun fields s => fields.within s.addTo s.key.tables) fields

/-- A table with what lines below headers describe, their values in order. -/
def addLines (lines : List Line) (fields : Fields) : Option Fields :=
  addSections fields (sections (lines.map Line.sorted)).2

/-- Nothing is assigned before the first header of some lines. -/
def StartsWithHeader (lines : List Line) : Prop :=
  ∀ line, lines.head? = some line → line.isHeader = true

theorem startsWithHeader_nil : StartsWithHeader [] := by simp [StartsWithHeader]

theorem startsWithHeader_cons (isItem : Bool) (key : Key) (lines : List Line) :
    StartsWithHeader (.header isItem key :: lines) := by
  simp [StartsWithHeader, Line.isHeader]

theorem StartsWithHeader.append {more : List Line} (h : StartsWithHeader lines)
    (hmore : StartsWithHeader more) : StartsWithHeader (lines ++ more) := by
  cases lines with
  | nil => exact hmore
  | cons line lines => exact h

theorem StartsWithHeader.sections_eq (h : StartsWithHeader lines) :
    (sections (lines.map Line.sorted)).1 = [] := by
  cases lines with
  | nil => rfl
  | cons line lines =>
    cases line with
    | header isItem key => rfl
    | assignment key v => exact absurd (h _ rfl) (by simp [Line.isHeader])

/-- The sections of lines are followed by those of other lines that begin with a header. -/
theorem sections_append {more : List Line} (h : (sections more).1 = []) (lines : List Line) :
    sections (lines ++ more) = ((sections lines).1, (sections lines).2 ++ (sections more).2) := by
  induction lines with
  | nil => exact Prod.ext h rfl
  | cons line lines ih => cases line <;> simp [sections, ih]

theorem addLines_append {more : List Line} (hmore : StartsWithHeader more) (lines : List Line)
    (fields : Fields) :
    addLines (lines ++ more) fields = (addLines lines fields).bind (addLines more) := by
  rw [addLines, List.map_append, sections_append hmore.sections_eq, addSections,
    List.foldlM_append]
  rfl

/-! ### Lines of inner tables -/

/-- A line of a table as it is written if the table stands inside others. -/
def Line.under (outer : List String) : Line → Line
  | .header isItem key => .header isItem ⟨outer ++ key.tables, key.name⟩
  | .assignment key v => .assignment key v

/-- A section of a table that stands inside others. -/
def Section.under (outer : List String) (s : Section) : Section :=
  { s with key := ⟨outer ++ s.key.tables, s.key.name⟩ }

theorem map_under_assignmentsOf (outer : List String) (fields : List (String × Value)) :
    (assignmentsOf fields).map (Line.under outer) = assignmentsOf fields := by
  rw [assignmentsOf, List.map_map]
  rfl

theorem map_under_headerOf (outer tables : List String) (name : String)
    (fields : List (String × Value)) :
    headerOf ⟨outer ++ tables, name⟩ fields =
      (headerOf ⟨tables, name⟩ fields).map (Line.under outer) := by
  unfold headerOf
  split_ifs <;> rfl

mutual

/-- A value is written inside of tables as it is by itself, but for the names of the tables. -/
theorem linesBelow_append (outer tables : List String) (name : String) : ∀ v : Value,
    linesBelow ⟨outer ++ tables, name⟩ v = (linesBelow ⟨tables, name⟩ v).map (Line.under outer)
  | .object fields => by
    have htables := linesOfTables_append outer (tables ++ [name]) fields
    rw [linesBelow, linesBelow, map_under_headerOf, List.append_assoc outer, htables,
      List.map_append, List.map_append, map_under_assignmentsOf]
  | .array items => by
    rw [linesBelow, linesBelow]
    split_ifs
    · exact linesOfItems_append outer tables name items
    · rfl
  | .null | .bool _ | .integer _ | .float _ | .text _ => rfl

theorem linesOfTables_append (outer tables : List String) : ∀ fields : List (String × Value),
    linesOfTables (outer ++ tables) fields =
      (linesOfTables tables fields).map (Line.under outer)
  | [] => rfl
  | (name, v) :: rest => by
    rw [linesOfTables, linesOfTables, linesBelow_append outer tables name v,
      linesOfTables_append outer tables rest, List.map_append]

theorem linesOfItems_append (outer tables : List String) (name : String) : ∀ items : List Value,
    linesOfItems ⟨outer ++ tables, name⟩ items =
      (linesOfItems ⟨tables, name⟩ items).map (Line.under outer)
  | [] => rfl
  | .object fields :: rest => by
    have htables := linesOfTables_append outer (tables ++ [name]) fields
    rw [linesOfItems, linesOfItems, List.append_assoc outer, htables,
      linesOfItems_append outer tables name rest]
    simp [Line.under, map_under_assignmentsOf]
  | .array _ :: rest | .null :: rest | .bool _ :: rest | .integer _ :: rest | .float _ :: rest
  | .text _ :: rest => linesOfItems_append outer tables name rest

end

theorem sections_map_under (outer : List String) (lines : List Line) :
    sections (lines.map (Line.under outer)) =
      ((sections lines).1, (sections lines).2.map (Section.under outer)) := by
  induction lines with
  | nil => rfl
  | cons line lines ih => cases line <;> simp [sections, Line.under, Section.under, ih]

theorem map_sorted_map_under (outer : List String) (lines : List Line) :
    (lines.map (Line.under outer)).map Line.sorted =
      (lines.map Line.sorted).map (Line.under outer) := by
  rw [List.map_map, List.map_map]
  exact List.map_congr_left fun line _ => by cases line <;> rfl

theorem addLines_map_under (outer : List String) (lines : List Line) (fields : Fields) :
    addLines (lines.map (Line.under outer)) fields =
      addSections fields ((sections (lines.map Line.sorted)).2.map (Section.under outer)) := by
  rw [addLines, map_sorted_map_under, sections_map_under]

/-- Sections inside of a table change that table. -/
theorem addSections_under_table (h : name ∉ fields.map Prod.fst) (kind : TableKind)
    (inner : Fields) (added : List Section) :
    addSections (fields ++ [(name, .table kind inner)]) (added.map (Section.under [name])) =
      (addSections inner added).map fun inner => fields ++ [(name, .table kind inner)] := by
  induction added generalizing inner with
  | nil => rfl
  | cons s added ih =>
    have hstep : Fields.within (Section.addTo (s.under [name])) (s.under [name]).key.tables
        (fields ++ [(name, .table kind inner)]) =
        (inner.within s.addTo s.key.tables).map fun inner =>
          fields ++ [(name, .table kind inner)] := by
      change Fields.within s.addTo (name :: s.key.tables) _ = _
      rw [Fields.within, Fields.find?_append h]
      simp only [Option.bind_eq_bind, Fields.set_append h]
      cases inner.within s.addTo s.key.tables <;> rfl
    rw [List.map_cons, addSections, List.foldlM_cons, hstep, addSections, List.foldlM_cons]
    cases inner.within s.addTo s.key.tables with
    | none => rfl
    | some inner => exact ih inner

/-- Sections inside of a list of tables change the last one of them. -/
theorem addSections_under_tables (h : name ∉ fields.map Prod.fst) (items : List Fields)
    (last : Fields) (added : List Section) :
    addSections (fields ++ [(name, .tables (items ++ [last]))])
        (added.map (Section.under [name])) =
      (addSections last added).map fun last => fields ++ [(name, .tables (items ++ [last]))] := by
  induction added generalizing last with
  | nil => rfl
  | cons s added ih =>
    have hstep : Fields.within (Section.addTo (s.under [name])) (s.under [name]).key.tables
        (fields ++ [(name, .tables (items ++ [last]))]) =
        (last.within s.addTo s.key.tables).map fun last =>
          fields ++ [(name, .tables (items ++ [last]))] := by
      change Fields.within s.addTo (name :: s.key.tables) _ = _
      rw [Fields.within, Fields.find?_append h]
      simp only [List.getLast?_concat, List.dropLast_concat, Option.bind_eq_bind,
        Fields.set_append h]
      cases last.within s.addTo s.key.tables <;> rfl
    rw [List.map_cons, addSections, List.foldlM_cons, hstep, addSections, List.foldlM_cons]
    cases last.within s.addTo s.key.tables with
    | none => rfl
    | some last => exact ih last

/-- Sections inside of a table that is missing make it. -/
theorem addSections_under_new (h : name ∉ fields.map Prod.fst) {added : List Section}
    (hne : added ≠ []) : addSections fields (added.map (Section.under [name])) =
      (addSections [] added).map fun inner => fields ++ [(name, .table .passed inner)] := by
  obtain ⟨s, added, rfl⟩ := List.exists_cons_of_ne_nil hne
  have hstep : Fields.within (Section.addTo (s.under [name])) (s.under [name]).key.tables fields =
      (Fields.within s.addTo s.key.tables []).map fun inner =>
        fields ++ [(name, .table .passed inner)] := by
    change Fields.within s.addTo (name :: s.key.tables) _ = _
    rw [Fields.within, Fields.find?_eq_none h]
    simp only [Option.bind_eq_bind, Fields.set_eq_append h]
    cases Fields.within s.addTo s.key.tables [] <;> rfl
  rw [List.map_cons, addSections, List.foldlM_cons, hstep, addSections, List.foldlM_cons]
  cases Fields.within s.addTo s.key.tables [] with
  | none => rfl
  | some inner => exact addSections_under_table h .passed inner added

/-! ### Assignments -/

/-- What is assigned in a table, with the values in order. -/
def assignedTo (fields : List (String × Value)) : List (String × Value) :=
  (fields.filter fun (_, v) => !hasHeaders v).map fun (name, v) => (name, v.sorted)

/-- The nodes of values. -/
def leaves (assigned : List (String × Value)) : Fields :=
  assigned.map fun (name, v) => (name, .leaf v)

theorem assignAll_eq (fields : Fields) (assigned : List (String × Value))
    (hnodup : (fields.map Prod.fst ++ assigned.map Prod.fst).Nodup) :
    assignAll fields (assigned.map fun (name, v) => (⟨[], name⟩, v)) =
      some (fields ++ leaves assigned) := by
  induction assigned generalizing fields with
  | nil => simp [assignAll, leaves]
  | cons entry assigned ih =>
    obtain ⟨name, v⟩ := entry
    have hfresh : name ∉ fields.map Prod.fst := fun hmem =>
      (List.nodup_append.mp hnodup).2.2 name hmem name List.mem_cons_self rfl
    have hassign : fields.assign name v true [] = some (fields ++ [(name, .leaf v)]) := by
      rw [Fields.assign, Fields.find?_eq_none hfresh, Fields.set_eq_append hfresh]
      rfl
    have hrest := ih (fields ++ [(name, .leaf v)]) (by simpa using hnodup)
    rw [List.map_cons, assignAll, List.foldlM_cons]
    simp only [hassign, Option.bind_eq_bind, Option.bind_some]
    rw [← assignAll, hrest, List.append_assoc]
    rfl

theorem map_sorted_assignmentsOf (fields : List (String × Value)) :
    (assignmentsOf fields).map Line.sorted =
      (assignedTo fields).map fun (name, v) => .assignment ⟨[], name⟩ v := by
  rw [assignmentsOf, assignedTo, List.map_map, List.map_map]
  rfl

theorem sections_assignments (assigned : List (String × Value)) :
    sections (assigned.map fun (name, v) => .assignment ⟨[], name⟩ v) =
      (assigned.map fun (name, v) => (⟨[], name⟩, v), []) := by
  induction assigned with
  | nil => rfl
  | cons entry assigned ih => simp [sections, ih]

/-- A header and the assignments below it are one section. -/
theorem addLines_section (isItem : Bool) (name : String) (assigned : List (String × Value))
    (fields : Fields) :
    addLines (.header isItem ⟨[], name⟩ :: assignmentsOf assigned) fields =
      Section.addTo ⟨isItem, ⟨[], name⟩,
        (assignedTo assigned).map fun (name, v) => (⟨[], name⟩, v)⟩ fields := by
  rw [addLines, List.map_cons, map_sorted_assignmentsOf, Line.sorted, sections,
    sections_assignments]
  simp [addSections, Fields.within]

/-! ### Nodes -/

/-- How a table comes to be from its lines. -/
def kindOf (fields : List (String × Value)) : TableKind :=
  if !fields.isEmpty && (assignmentsOf fields).isEmpty then .passed else .defined

mutual

/-- The node that a value becomes. -/
def nodeOf : Value → Node
  | .object fields => .table (kindOf fields) (leaves (assignedTo fields) ++ tableNodes fields)
  | .array items => if hasHeaders (.array items) then .tables (itemNodes items)
    else .leaf (Value.array items).sorted
  | v => .leaf v

/-- The nodes of the tables and lists of tables among some fields. -/
def tableNodes : List (String × Value) → Fields
  | [] => []
  | (name, v) :: rest =>
    if hasHeaders v then (name, nodeOf v) :: tableNodes rest else tableNodes rest

/-- The tables in a list. -/
def itemNodes : List Value → List Fields
  | [] => []
  | .object fields :: rest =>
    (leaves (assignedTo fields) ++ tableNodes fields) :: itemNodes rest
  | _ :: rest => itemNodes rest

end

/-! ### The first line of a table inside -/

/-- A table begins with its header, or with the first table inside if it needs none. -/
theorem headerOf_append (key : Key) (fields : List (String × Value)) :
    (headerOf key fields ++ assignmentsOf fields = .header false key :: assignmentsOf fields ∧
        kindOf fields = .defined) ∨
      headerOf key fields ++ assignmentsOf fields = [] ∧ kindOf fields = .passed ∧
        fields ≠ [] ∧ assignmentsOf fields = [] := by
  rw [headerOf, kindOf]
  split_ifs with homitted
  · rw [Bool.and_eq_true, Bool.not_eq_true', List.isEmpty_iff, List.isEmpty_eq_false_iff]
      at homitted
    exact .inr ⟨homitted.2, rfl, homitted.1, homitted.2⟩
  · exact .inl ⟨rfl, rfl⟩

theorem hasHeaders_of_assignmentsOf (h : assignmentsOf described = []) {field : String × Value}
    (hfield : field ∈ described) : hasHeaders field.2 = true := by
  rw [assignmentsOf, List.map_eq_nil_iff, List.filter_eq_nil_iff] at h
  simpa using h field hfield

mutual

theorem startsWithHeader_linesBelow (key : Key) : ∀ v : Value,
    StartsWithHeader (linesBelow key v)
  | .object fields => by
    have htables := startsWithHeader_linesOfTables (key.tables ++ [key.name]) fields
    rw [linesBelow]
    rcases headerOf_append key fields with ⟨hheader, -⟩ | ⟨hnone, -⟩
    · rw [hheader]
      exact startsWithHeader_cons _ _ _
    · rw [hnone]
      exact htables
  | .array items => by
    rw [linesBelow]
    split_ifs
    · exact startsWithHeader_linesOfItems key items
    · exact startsWithHeader_nil
  | .null | .bool _ | .integer _ | .float _ | .text _ => startsWithHeader_nil

theorem startsWithHeader_linesOfTables (tables : List String) :
    ∀ fields : List (String × Value), StartsWithHeader (linesOfTables tables fields)
  | [] => startsWithHeader_nil
  | (name, v) :: rest =>
    (startsWithHeader_linesBelow ⟨tables, name⟩ v).append
      (startsWithHeader_linesOfTables tables rest)

theorem startsWithHeader_linesOfItems (key : Key) : ∀ items : List Value,
    StartsWithHeader (linesOfItems key items)
  | [] => startsWithHeader_nil
  | .object _ :: _ => startsWithHeader_cons _ _ _
  | .array _ :: rest | .null :: rest | .bool _ :: rest | .integer _ :: rest | .float _ :: rest
  | .text _ :: rest => startsWithHeader_linesOfItems key rest

end

mutual

/-- A value below headers has at least one of them. -/
theorem linesBelow_ne_nil (key : Key) : ∀ v : Value, hasHeaders v = true → linesBelow key v ≠ []
  | .object fields, _ => by
    rw [linesBelow]
    rcases headerOf_append key fields with ⟨hheader, -⟩ | ⟨hnone, -, hne, hassigned⟩
    · simp [hheader]
    · rw [hnone]
      exact linesOfTables_ne_nil _ fields hne fun _ => hasHeaders_of_assignmentsOf hassigned
  | .array (.object fields :: rest), h => by
    rw [linesBelow, if_pos h]
    exact List.cons_ne_nil _ _

theorem linesOfTables_ne_nil (tables : List String) : ∀ fields : List (String × Value),
    fields ≠ [] → (∀ field ∈ fields, hasHeaders field.2 = true) → linesOfTables tables fields ≠ []
  | (name, v) :: rest, _, h => by
    rw [linesOfTables]
    exact List.append_ne_nil_of_left_ne_nil
      (linesBelow_ne_nil ⟨tables, name⟩ v (h _ List.mem_cons_self)) _

end

/-- Lines that begin with a header have at least one section. -/
theorem StartsWithHeader.sections_ne_nil (h : StartsWithHeader lines) (hne : lines ≠ []) :
    (sections (lines.map Line.sorted)).2 ≠ [] := by
  obtain ⟨line, lines, rfl⟩ := List.exists_cons_of_ne_nil hne
  cases line with
  | header isItem key => exact List.cons_ne_nil _ _
  | assignment key v => exact absurd (h _ rfl) (by simp [Line.isHeader])

/-! ### What lines add -/

theorem assignAll_assignedTo (hnodup : (described.map Prod.fst).Nodup) :
    assignAll [] ((assignedTo described).map fun (name, v) => (⟨[], name⟩, v)) =
      some (leaves (assignedTo described)) := by
  refine assignAll_eq [] (assignedTo described) ?_
  have hsublist : ((assignedTo described).map Prod.fst).Sublist (described.map Prod.fst) := by
    rw [assignedTo, List.map_map]
    exact List.filter_sublist.map Prod.fst
  exact hnodup.sublist hsublist

/-- A table below a new header is added at the end. -/
theorem addLines_table (hname : name ∉ fields.map Prod.fst)
    (hnodup : (described.map Prod.fst).Nodup) :
    addLines (.header false ⟨[], name⟩ :: assignmentsOf described) fields =
      some (fields ++ [(name, .table .defined (leaves (assignedTo described)))]) := by
  rw [addLines_section, Section.addTo, Fields.find?_eq_none hname]
  simp only [assignAll_assignedTo hnodup, Option.bind_eq_bind, Option.bind_some, Option.pure_def,
    Fields.set_eq_append hname]

/-- A table with a list of tables at its end, which is missing as long as it would be empty. -/
def withTables (fields : Fields) (name : String) (items : List Fields) : Fields :=
  if items.isEmpty then fields else fields ++ [(name, .tables items)]

/-- The next table of a list is added to the list. -/
theorem addLines_item (hname : name ∉ fields.map Prod.fst) (done : List Fields)
    (hnodup : (described.map Prod.fst).Nodup) :
    addLines (.header true ⟨[], name⟩ :: assignmentsOf described) (withTables fields name done) =
      some (fields ++ [(name, .tables (done ++ [leaves (assignedTo described)]))]) := by
  rw [addLines_section, Section.addTo]
  cases done with
  | nil =>
    simp only [withTables, List.isEmpty_nil, ↓reduceIte, Fields.find?_eq_none hname,
      assignAll_assignedTo hnodup, Option.bind_eq_bind, Option.bind_some, Option.pure_def,
      Fields.set_eq_append hname, List.nil_append]
  | cons item done =>
    simp only [withTables, List.isEmpty_cons, Bool.false_eq_true, ↓reduceIte,
      Fields.find?_append hname, assignAll_assignedTo hnodup, Option.bind_eq_bind,
      Option.bind_some, Option.pure_def, Fields.set_append hname]

theorem withTables_of_ne_nil {items : List Fields} (h : items ≠ []) (fields : Fields)
    (name : String) : withTables fields name items = fields ++ [(name, .tables items)] := by
  rw [withTables, if_neg (by simpa using h)]

/-- There are tables in a list of tables. -/
theorem itemNodes_ne_nil : ∀ {items : List Value}, hasHeaders (.array items) = true →
    itemNodes items ≠ []
  | .object _ :: _, _ => List.cons_ne_nil _ _

/-- There are no lines below headers for a value that is written in a line. -/
theorem linesBelow_eq_nil {v : Value} (key : Key) (h : ¬hasHeaders v = true) :
    linesBelow key v = [] := by
  cases v with
  | object _ => exact absurd rfl h
  | array _ => rw [linesBelow, if_neg h]
  | _ => rfl

/-- The tables inside of a table have other names than what is assigned in it. -/
theorem notMem_leaves_assignedTo (hnodup : (described.map Prod.fst).Nodup)
    {field : String × Value} (hfield : field ∈ described) (hheaders : hasHeaders field.2 = true) :
    field.1 ∉ (leaves (assignedTo described)).map Prod.fst := by
  intro hmem
  rw [leaves, assignedTo, List.map_map, List.map_map, List.mem_map] at hmem
  obtain ⟨other, hother, heq⟩ := hmem
  obtain ⟨hmem, hassigned⟩ := List.mem_filter.mp hother
  have hsame : other = field := List.inj_on_of_nodup_map hnodup hmem hfield heq
  rw [hsame] at hassigned
  simp [hheaders] at hassigned

/-- The lines of a table add it, if those of the tables inside add them. -/
theorem addLines_object (hname : name ∉ fields.map Prod.fst)
    (hnodup : (described.map Prod.fst).Nodup)
    (hinner : addLines (linesOfTables [] described) (leaves (assignedTo described)) =
      some (leaves (assignedTo described) ++ tableNodes described)) :
    addLines (linesBelow ⟨[], name⟩ (.object described)) fields =
      some (fields ++ [(name, nodeOf (.object described))]) := by
  have hunder := linesOfTables_append [name] [] described
  have hstart := startsWithHeader_linesOfTables ([] ++ [name]) described
  rw [linesBelow, nodeOf]
  rcases headerOf_append ⟨[], name⟩ described with ⟨hheader, hkind⟩ | ⟨hnone, hkind, hne, hassigned⟩
  · rw [hheader, hkind, addLines_append hstart, addLines_table hname hnodup, Option.bind_some]
    simp only [List.nil_append, List.append_nil] at hunder ⊢
    rw [hunder, addLines_map_under, addSections_under_table hname, ← addLines, hinner]
    rfl
  · have hlines : linesOfTables [] described ≠ [] :=
      linesOfTables_ne_nil [] described hne fun _ => hasHeaders_of_assignmentsOf hassigned
    have hleaves : leaves (assignedTo described) = [] := by
      rw [assignmentsOf, List.map_eq_nil_iff] at hassigned
      rw [assignedTo, hassigned]
      rfl
    rw [hleaves] at hinner ⊢
    simp only [List.nil_append, List.append_nil] at hunder ⊢
    rw [hnone, hkind, List.nil_append, hunder, addLines_map_under, addSections_under_new hname
      ((startsWithHeader_linesOfTables [] described).sections_ne_nil hlines), ← addLines, hinner]
    rfl

/-- The lines of a table in a list add it to the list, if those of the tables inside add them. -/
theorem addLines_objectItem (hname : name ∉ fields.map Prod.fst) (done : List Fields)
    (hnodup : (described.map Prod.fst).Nodup)
    (hinner : addLines (linesOfTables [] described) (leaves (assignedTo described)) =
      some (leaves (assignedTo described) ++ tableNodes described)) :
    addLines (.header true ⟨[], name⟩ :: assignmentsOf described ++
        linesOfTables ([] ++ [name]) described) (withTables fields name done) =
      some (withTables fields name
        (done ++ [leaves (assignedTo described) ++ tableNodes described])) := by
  have hunder := linesOfTables_append [name] [] described
  have hstart := startsWithHeader_linesOfTables ([] ++ [name]) described
  have hitems : ∀ items item, withTables fields name (items ++ [item]) =
      fields ++ [(name, .tables (items ++ [item]))] := by simp [withTables]
  rw [addLines_append hstart, addLines_item hname done hnodup, Option.bind_some]
  simp only [List.nil_append, List.append_nil] at hunder ⊢
  rw [hunder, addLines_map_under, addSections_under_tables hname, ← addLines, hinner, hitems]
  rfl

mutual

/-- The lines of a value below headers add its node. -/
theorem addLines_linesBelow : ∀ v : Value, v.isLegible = true → hasHeaders v = true →
    ∀ {name : String} {fields : Fields}, name ∉ fields.map Prod.fst →
    addLines (linesBelow ⟨[], name⟩ v) fields = some (fields ++ [(name, nodeOf v)])
  | .object described, hlegible, _, name, fields, hname => by
    simp only [Value.isLegible, Bool.and_eq_true, decide_eq_true_eq] at hlegible
    exact addLines_object hname hlegible.1 <|
      addLines_linesOfTables described hlegible.1 hlegible.2 fun _ =>
        notMem_leaves_assignedTo hlegible.1
  | .array items, hlegible, hheaders, name, fields, hname => by
    have htables := hheaders
    simp only [hasHeaders, Bool.and_eq_true, Bool.not_eq_true', List.all_eq_true] at htables
    have hitems := addLines_linesOfItems items (by simpa [Value.isLegible] using hlegible)
      htables.2 hname []
    rw [List.nil_append, withTables_of_ne_nil (itemNodes_ne_nil hheaders)] at hitems
    rw [linesBelow, nodeOf, if_pos hheaders, if_pos hheaders]
    exact hitems
  | .null, _, h, _, _, _ | .bool _, _, h, _, _, _ | .integer _, _, h, _, _, _
  | .float _, _, h, _, _, _ | .text _, _, h, _, _, _ => absurd h Bool.false_ne_true

/-- The lines of tables add their nodes. -/
theorem addLines_linesOfTables : ∀ described : List (String × Value),
    (described.map Prod.fst).Nodup → Value.haveLegible described = true →
    ∀ {fields : Fields},
    (∀ field ∈ described, hasHeaders field.2 = true → field.1 ∉ fields.map Prod.fst) →
    addLines (linesOfTables [] described) fields = some (fields ++ tableNodes described)
  | [], _, _, fields, _ => by
    simp [linesOfTables, tableNodes, addLines, addSections, sections]
  | (name, v) :: rest, hnodup, hlegible, fields, hfresh => by
    rw [List.map_cons, List.nodup_cons] at hnodup
    simp only [Value.haveLegible, Bool.and_eq_true] at hlegible
    rw [linesOfTables, addLines_append (startsWithHeader_linesOfTables [] rest), tableNodes]
    by_cases hheaders : hasHeaders v = true
    · have hadd := addLines_linesBelow v hlegible.1 hheaders
        (hfresh (name, v) List.mem_cons_self hheaders)
      have hfreshRest : ∀ field ∈ rest, hasHeaders field.2 = true →
          field.1 ∉ (fields ++ [(name, nodeOf v)]).map Prod.fst := by
        intro field hfield hheaders hmem
        rw [List.map_append, List.mem_append] at hmem
        rcases hmem with hmem | hmem
        · exact hfresh field (List.mem_cons_of_mem _ hfield) hheaders hmem
        · have hsame : field.1 = name := by simpa using hmem
          exact hnodup.1 (hsame ▸ List.mem_map.mpr ⟨field, hfield, rfl⟩)
      have hrest := addLines_linesOfTables rest hnodup.2 hlegible.2 hfreshRest
      rw [hadd, Option.bind_some, hrest, if_pos hheaders, List.append_assoc,
        List.singleton_append]
    · rw [if_neg hheaders, linesBelow_eq_nil _ hheaders]
      exact addLines_linesOfTables rest hnodup.2 hlegible.2 fun field hfield =>
        hfresh field (List.mem_cons_of_mem _ hfield)

/-- The lines of the tables in a list add them to the list. -/
theorem addLines_linesOfItems : ∀ items : List Value, Value.areLegible items = true →
    (∀ v ∈ items, isTable v = true) → ∀ {name : String} {fields : Fields},
    name ∉ fields.map Prod.fst → ∀ done : List Fields,
    addLines (linesOfItems ⟨[], name⟩ items) (withTables fields name done) =
      some (withTables fields name (done ++ itemNodes items))
  | [], _, _, name, fields, _, done => by
    simp [linesOfItems, itemNodes, addLines, addSections, sections]
  | .object described :: rest, hlegible, htables, name, fields, hname, done => by
    simp only [Value.areLegible, Value.isLegible, Bool.and_eq_true, decide_eq_true_eq] at hlegible
    have hitem := addLines_objectItem hname done hlegible.1.1 <|
      addLines_linesOfTables described hlegible.1.1 hlegible.1.2 fun _ =>
        notMem_leaves_assignedTo hlegible.1.1
    have hrest := addLines_linesOfItems rest hlegible.2
      (fun v hv => htables v (List.mem_cons_of_mem _ hv)) hname
      (done ++ [leaves (assignedTo described) ++ tableNodes described])
    rw [linesOfItems, itemNodes, addLines_append (startsWithHeader_linesOfItems _ rest), hitem,
      Option.bind_some, hrest, List.append_assoc, List.singleton_append]
  | .array _ :: _, _, h, _, _, _, _ | .null :: _, _, h, _, _, _, _ | .bool _ :: _, _, h, _, _, _, _
  | .integer _ :: _, _, h, _, _, _, _ | .float _ :: _, _, h, _, _, _, _
  | .text _ :: _, _, h, _, _, _, _ => absurd (h _ List.mem_cons_self) Bool.false_ne_true

end

end Filewise.Toml
