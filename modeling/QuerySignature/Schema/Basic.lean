import QuerySignature.SqlType.Basic
import QuerySignature.Text.Caseless

namespace QuerySignature

/-! # Schema

A schema is an index of column records by table. Tables stand in the order of their first record
and the columns of a table in the order of their records. A table is looked up by its exact name
first and then by the first name that differs only in case.
-/

/-- The part of a column in the keys of its table. -/
inductive KeyRole where
  | primary
  | unique
  | plain
  deriving DecidableEq, Repr, Inhabited

namespace KeyRole

/-- Whether the column alone is declared free of repetition. -/
def isUnique : KeyRole → Bool
  | primary | unique => true
  | plain => false

/-- The mark of a key in records. -/
def mark : KeyRole → String
  | primary => "PRI"
  | unique => "UNI"
  | plain => ""

/-- The key of a mark. -/
def ofMark? (mark : String) : Option KeyRole :=
  match mark with
  | "PRI" => some primary
  | "UNI" => some unique
  | "" => some plain
  | _ => none

theorem ofMark?_mark (key : KeyRole) : ofMark? key.mark = some key := by
  cases key <;> rfl

end KeyRole

/-- One declared column of a table. -/
structure ColumnRecord where
  table : String
  column : String
  type : SqlType
  key : KeyRole
  notNull : Bool
  deriving DecidableEq, Repr, Inhabited

/-- Tables in order, each with its columns in order. -/
structure Schema where
  entries : List (String × List ColumnRecord)
  deriving DecidableEq, Repr, Inhabited

namespace Schema

/-- Adds a record to the entry of its table, or starts a new last entry. -/
def add (record : ColumnRecord) :
    List (String × List ColumnRecord) → List (String × List ColumnRecord)
  | [] => [(record.table, [record])]
  | (name, columns) :: rest =>
    if name = record.table then (name, columns ++ [record]) :: rest
    else (name, columns) :: add record rest

/-- The index of a list of records. -/
def ofRecords (records : List ColumnRecord) : Schema :=
  ⟨records.foldl (fun entries record => add record entries) []⟩

/-- The schema without tables. -/
def empty : Schema := ⟨[]⟩

/-- The names of the tables. -/
def tables (schema : Schema) : List String := schema.entries.map (·.1)

/-- The columns of a table. -/
def columnsOf? (schema : Schema) (table : String) : Option (List ColumnRecord) :=
  let exact := schema.entries.find? fun entry => entry.1 == table
  let caseless := schema.entries.find? fun entry => sameName entry.1 table
  (exact.or caseless).map (·.2)

/-- A column of a table, by a name in any case. -/
def column? (schema : Schema) (table column : String) : Option ColumnRecord :=
  (schema.columnsOf? table).bind fun columns =>
    columns.find? fun record => sameName record.column column

end Schema

end QuerySignature
