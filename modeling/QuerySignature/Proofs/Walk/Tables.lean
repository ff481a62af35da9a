import QuerySignature.Syntax.Basic
import QuerySignature.Text.Caseless

namespace QuerySignature

/-! # The tables that a query reads

The names that a query looks for outside of itself, at any depth. A common table takes its own name
out of what follows it.
-/

mutual

/-- The tables that the queries inside an expression read. -/
def Expr.tables : Expr → List String
  | .literal _ | .column _ | .parameter _ | .star => []
  | .arithmetic _ left right | .compare _ left right => left.tables ++ right.tables
  | .and left right | .or left right => left.tables ++ right.tables
  | .between _ value low high => value.tables ++ low.tables ++ high.tables
  | .inList _ value items => value.tables ++ tablesOfAll items
  | .inQuery _ value query => value.tables ++ query.tables
  | .like _ value pattern => value.tables ++ pattern.tables
  | .isNull _ value | .not value | .paren value => value.tables
  | .call _ _ arguments => tablesOfAll arguments
  | .case operand branches otherwise =>
    tablesOfSome operand ++ tablesOfBranches branches ++ tablesOfSome otherwise
  | .scalar query | .hasRows query => query.tables

/-- The tables that a list of expressions reads. -/
def tablesOfAll : List Expr → List String
  | [] => []
  | e :: rest => e.tables ++ tablesOfAll rest

/-- The tables that an expression reads, if there is one. -/
def tablesOfSome : Option Expr → List String
  | none => []
  | some e => e.tables

/-- The tables that the branches of a CASE read. -/
def tablesOfBranches : List WhenThen → List String
  | [] => []
  | ⟨condition, value⟩ :: rest => condition.tables ++ value.tables ++ tablesOfBranches rest

/-- The tables that a query reads. -/
def Select.tables : Select → List String
  | ⟨ctes, branches, order, limit⟩ =>
    tablesBehind ctes (tablesOfUnion branches ++ tablesOfOrder order ++ tablesOfLimit limit)

/-- The tables that are read by common tables and by what follows them. -/
def tablesBehind : List Cte → List String → List String
  | [], following => following
  | ⟨name, query⟩ :: rest, following =>
    query.tables ++ (tablesBehind rest following).filter fun t => !sameName name (lastSegment t)

/-- The tables that the branches of a query read. -/
def tablesOfUnion : List Branch → List String
  | [] => []
  | branch :: rest => branch.tables ++ tablesOfUnion rest

/-- The tables that a branch reads. -/
def Branch.tables : Branch → List String
  | ⟨_, items, sources, joins, criteria, group, having⟩ =>
    tablesOfItems items ++ tablesOfSources sources ++ tablesOfJoins joins ++
      tablesOfSome criteria ++ tablesOfAll group ++ tablesOfSome having

/-- The tables that the items of a projection read. -/
def tablesOfItems : List Item → List String
  | [] => []
  | item :: rest => item.tables ++ tablesOfItems rest

/-- The tables that an item of a projection reads. -/
def Item.tables : Item → List String
  | .star | .tableStar _ => []
  | .expr value _ => value.tables

/-- The tables that the sources after FROM read. -/
def tablesOfSources : List Source → List String
  | [] => []
  | source :: rest => source.tables ++ tablesOfSources rest

/-- The tables that a source reads. -/
def Source.tables : Source → List String
  | .table name _ => [name]
  | .derived query _ => query.tables

/-- The tables that joins read. -/
def tablesOfJoins : List Join → List String
  | [] => []
  | ⟨_, source, condition⟩ :: rest => source.tables ++ condition.tables ++ tablesOfJoins rest

/-- The tables that the condition of a join reads. -/
def JoinCondition.tables : JoinCondition → List String
  | .predicate e => e.tables
  | .shared _ | .unconditional => []

/-- The tables that an ORDER BY reads. -/
def tablesOfOrder : List OrderTerm → List String
  | [] => []
  | ⟨value, _⟩ :: rest => value.tables ++ tablesOfOrder rest

/-- The tables that LIMIT and OFFSET read. -/
def tablesOfLimit : Option Limit → List String
  | none => []
  | some ⟨count, offset⟩ => count.tables ++ tablesOfSome offset

end

end QuerySignature
