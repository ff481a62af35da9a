import QuerySignature.Scope.Basic

namespace QuerySignature

/-! # How many rows

Whether a query can return more than one row is read off a few of its features. A table's primary
key in an equation at the top of WHERE leaves at most one row of that table.
-/

/-- The features of a query that decide whether it can return more than one row. -/
structure RowShape where
  union : Bool
  grouped : Bool
  hasSource : Bool
  /-- Every output column is an aggregate, and there is one. -/
  allAggregates : Bool
  /-- It reads one table and its WHERE fixes a column of the primary key. -/
  keyFixed : Bool
  limitOne : Bool
  deriving DecidableEq, Repr, Inhabited

namespace RowShape

/-- Whether more than one row can come back. -/
def manyRows (shape : RowShape) : Bool :=
  if shape.union || shape.grouped then true
  else if !shape.hasSource || shape.allAggregates then false
  else !(shape.keyFixed || shape.limitOne)

end RowShape

/-- Whether an expression refers to a column of a primary key at the innermost level. -/
def Scope.isPrimaryKey (scope : Scope) (e : Expr) : Bool :=
  match e.column? with
  | some c => scope.columns.any fun column =>
      column.answers c.qualifier c.name && column.key == .primary
  | none => false

/-- Whether one of the conditions that a criterion joins with AND equates a column of a primary
key. -/
def Scope.fixesKey (scope : Scope) (criteria : Expr) : Bool :=
  criteria.equalities.any fun (left, right) => scope.isPrimaryKey left || scope.isPrimaryKey right

end QuerySignature
