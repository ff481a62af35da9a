import QuerySignature.Scope.Basic

namespace QuerySignature

/-! # Relations

The tables of a FROM clause as a graph: each table hangs off another one and gives one row or many
for a row of that. A table is known in the graph by its key, the alias or else the name.
-/

/-- How many rows of a relation belong to one row of its parent. -/
inductive Cardinality where
  | one
  | many
  deriving DecidableEq, Repr, Inhabited

/-- The cardinality of a link that is unique or not. -/
def Cardinality.ofUnique (unique : Bool) : Cardinality := if unique then one else many

/-- A table of a FROM clause and its place among the others. -/
structure Relation where
  name : String
  /-- Empty when the table has none. -/
  aliasName : String
  /-- The key of the parent, empty for a root. -/
  parent : String
  cardinality : Cardinality
  /-- The output column that is null where the table has no row: its primary key, under the name it
  is projected with. -/
  joinColumn : String
  deriving DecidableEq, Repr, Inhabited

namespace Relation

/-- The name a relation is known by. -/
def key (r : Relation) : String := if r.aliasName.isEmpty then r.name else r.aliasName

/-- Whether a relation hangs off no other. -/
def isRoot (r : Relation) : Bool := r.parent.isEmpty

/-- Whether a table name that is not empty means the relation. -/
def answers (r : Relation) (table : String) : Bool :=
  !table.isEmpty && (sameName r.name table || sameName r.aliasName table)

/-- The relation of a source, as a root; a derived table is none. -/
def ofSource? (source : Source) (columns : Level) : Option Relation :=
  match source with
  | .table name aliasName =>
    let primary := columns.find? fun column => column.key == .primary
    some {
      name := lastSegment name
      aliasName := aliasName.getD ""
      parent := ""
      cardinality := .one
      joinColumn := (primary.map (·.name)).getD "" }
  | .derived .. => none

end Relation

end QuerySignature
