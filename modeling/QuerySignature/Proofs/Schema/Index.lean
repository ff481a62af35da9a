import QuerySignature.Proofs.Gathered
import QuerySignature.Schema.Basic

namespace QuerySignature

/-! # The index of a schema

Records of different tables may come in any order, and names of tables may differ in nothing but case.
The index keeps every record once: under the name that the record spells, behind the records that came
before it. A table is found by its own name, and by any other spelling if no table has that name.

- `Schema.entries_ofRecords`: the index, told without how it is made.
- `Schema.indexes_ofRecords`: what is found in it.
-/

namespace Schema

/-- What a schema answers that holds some records. -/
structure Indexes (schema : Schema) (records : List ColumnRecord) : Prop where
  /-- The tables stand in the order of their first records. -/
  tables : schema.tables = distinct (records.map (·.table))
  /-- A listed name finds the records that spell it, in their order. -/
  listed : ∀ table ∈ schema.tables,
    schema.columnsOf? table = some (records.filter fun record => record.table == table)
  /-- No record is lost, and none is there twice. -/
  complete : (schema.tables.flatMap fun table => (schema.columnsOf? table).getD []).Perm records
  /-- A name that is not listed finds the first table that has it in another case, if there is one. -/
  caseless : ∀ name, name ∉ schema.tables → schema.columnsOf? name =
    (schema.tables.find? fun table => sameName table name).bind fun table =>
      schema.columnsOf? table
  /-- A column is the first one of its table that has its name in any case. -/
  column : ∀ table name, schema.column? table name =
    (schema.columnsOf? table).bind fun columns =>
      columns.find? fun record => sameName record.column name

theorem add_eq (record : ColumnRecord) : add record = gather record.table record := by
  funext entries
  induction entries with
  | nil => rfl
  | cons entry rest ih => rw [add, gather, ih]

section

variable (records : List ColumnRecord)

/-- Every table has the records that spell its name. -/
theorem entries_ofRecords :
    (ofRecords records).entries = (distinct (records.map (·.table))).map fun table =>
      (table, records.filter fun record => record.table == table) := by
  unfold ofRecords
  simp only [add_eq]
  have hgathered := foldl_gather (fun record : ColumnRecord => some record.table) records
  simpa only [List.filterMap_eq_map', Option.some_beq_some] using hgathered

theorem tables_ofRecords : (ofRecords records).tables = distinct (records.map (·.table)) := by
  unfold tables
  rw [entries_ofRecords, List.map_map]
  exact List.map_id _

/-- A table is looked up among the listed names, first as it is spelled and then in any case. -/
theorem columnsOf?_ofRecords (name : String) :
    (ofRecords records).columnsOf? name =
      (((ofRecords records).tables.find? (· == name)).or
        ((ofRecords records).tables.find? fun table => sameName table name)).map
          fun table => records.filter fun record => record.table == table := by
  unfold columnsOf?
  simp only [tables_ofRecords, entries_ofRecords, List.find?_map, ← Option.map_or,
    Option.map_map]
  rfl

variable {records}

theorem columnsOf?_of_mem {table : String} (h : table ∈ (ofRecords records).tables) :
    (ofRecords records).columnsOf? table =
      some (records.filter fun record => record.table == table) := by
  rw [columnsOf?_ofRecords]
  cases hfound : (ofRecords records).tables.find? (· == table) with
  | none => exact absurd (beq_self_eq_true table) (List.find?_eq_none.1 hfound table h)
  | some found =>
    have hsame := List.find?_some hfound
    obtain rfl : found = table := beq_iff_eq.1 hsame
    rfl

theorem columnsOf?_of_not_mem {name : String} (h : name ∉ (ofRecords records).tables) :
    (ofRecords records).columnsOf? name =
      ((ofRecords records).tables.find? fun table => sameName table name).bind fun table =>
        (ofRecords records).columnsOf? table := by
  have hnone : (ofRecords records).tables.find? (· == name) = none := by
    rw [List.find?_eq_none]
    exact fun table htable hsame => h (beq_iff_eq.1 hsame ▸ htable)
  rw [columnsOf?_ofRecords, hnone, Option.none_or]
  cases hfound : (ofRecords records).tables.find? fun table => sameName table name with
  | none => rfl
  | some table => exact (columnsOf?_of_mem (List.mem_of_find?_eq_some hfound)).symm

/-- The records of all tables are what is gathered of the records. -/
theorem flatMap_entries_perm (records : List ColumnRecord) :
    ((ofRecords records).entries.flatMap (·.2)).Perm records := by
  induction records using List.reverseRecOn with
  | nil => exact .refl _
  | append_singleton records record ih =>
    have hadd : (ofRecords (records ++ [record])).entries =
        gather record.table record (ofRecords records).entries := by
      unfold ofRecords
      rw [List.foldl_append, ← add_eq]
      rfl
    rw [hadd]
    exact (flatMap_gather_perm _ _ _).trans (ih.append_right [record])

theorem flatMap_tables (records : List ColumnRecord) :
    ((ofRecords records).tables.flatMap fun table =>
        ((ofRecords records).columnsOf? table).getD []) =
      (ofRecords records).entries.flatMap (·.2) := by
  rw [entries_ofRecords, ← tables_ofRecords, List.flatMap_map, List.flatMap_def, List.flatMap_def]
  congr 1
  refine List.map_congr_left fun table htable => ?_
  rw [columnsOf?_of_mem htable]
  rfl

end

/-- An index of records answers as a schema of these records. -/
theorem indexes_ofRecords (records : List ColumnRecord) :
    (ofRecords records).Indexes records where
  tables := tables_ofRecords records
  listed _ htable := columnsOf?_of_mem htable
  complete := flatMap_tables records ▸ flatMap_entries_perm records
  caseless _ hname := columnsOf?_of_not_mem hname
  column _ _ := rfl

/-- A name in its own spelling wins over an earlier one that differs in case. -/
example :
    let upper : ColumnRecord := ⟨"T", "a", .int, .plain, false⟩
    let lower : ColumnRecord := ⟨"t", "a", .date, .plain, false⟩
    let last : ColumnRecord := ⟨"T", "A", .text, .plain, false⟩
    let schema := ofRecords [upper, lower, last]
    schema.tables = ["T", "t"] ∧ schema.columnsOf? "t" = some [lower] ∧
      schema.columnsOf? "T" = some [upper, last] ∧ schema.column? "T" "A" = some upper := by
  decide +kernel

end Schema

end QuerySignature
