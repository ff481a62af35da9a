import QuerySignature.Syntax.Basic

namespace QuerySignature

/-! # How names are spelled

A tree may hold any text where a name stands, and what it prints can then be read as something else.
A `Naming` says which texts are taken for names; `Expr.Spelled`, `Select.Spelled` and the others say
that a tree holds no other names, at any depth.
-/

/-- The texts that may stand for a name: one of a table, column, function or common table or an
alias, and one of a parameter. -/
structure Naming where
  name : String → Prop
  parameter : String → Prop

/-- A reference to a column is spelled with names. -/
def ColumnRef.Spelled (N : Naming) (c : ColumnRef) : Prop :=
  (∀ table ∈ c.table, N.name table) ∧ N.name c.name

mutual

/-- An expression has names where names stand. -/
def Expr.Spelled (N : Naming) : Expr → Prop
  | .literal _ | .star => True
  | .column c => c.Spelled N
  | .parameter name => ∀ parameter ∈ name, N.parameter parameter
  | .arithmetic _ left right | .compare _ left right => left.Spelled N ∧ right.Spelled N
  | .and left right | .or left right => left.Spelled N ∧ right.Spelled N
  | .between _ value low high => value.Spelled N ∧ low.Spelled N ∧ high.Spelled N
  | .inList _ value items => value.Spelled N ∧ SpelledAll N items
  | .inQuery _ value query => value.Spelled N ∧ query.Spelled N
  | .like _ value pattern => value.Spelled N ∧ pattern.Spelled N
  | .isNull _ value | .not value | .paren value => value.Spelled N
  | .call function _ arguments => N.name function ∧ SpelledAll N arguments
  | .case operand branches otherwise =>
    SpelledSome N operand ∧ SpelledBranches N branches ∧ SpelledSome N otherwise
  | .scalar query | .hasRows query => query.Spelled N

/-- So do all of a list of expressions. -/
def SpelledAll (N : Naming) : List Expr → Prop
  | [] => True
  | e :: rest => e.Spelled N ∧ SpelledAll N rest

/-- So does an expression, if there is one. -/
def SpelledSome (N : Naming) : Option Expr → Prop
  | none => True
  | some e => e.Spelled N

/-- So do the branches of a CASE. -/
def SpelledBranches (N : Naming) : List WhenThen → Prop
  | [] => True
  | ⟨condition, value⟩ :: rest => condition.Spelled N ∧ value.Spelled N ∧ SpelledBranches N rest

/-- A query has names where names stand. -/
def Select.Spelled (N : Naming) : Select → Prop
  | ⟨ctes, branches, order, limit⟩ =>
    SpelledCtes N ctes ∧ SpelledUnion N branches ∧ SpelledOrder N order ∧ SpelledLimit N limit

/-- So do common tables. -/
def SpelledCtes (N : Naming) : List Cte → Prop
  | [] => True
  | ⟨name, query⟩ :: rest => N.name name ∧ query.Spelled N ∧ SpelledCtes N rest

/-- So do the branches of a query. -/
def SpelledUnion (N : Naming) : List Branch → Prop
  | [] => True
  | branch :: rest => branch.Spelled N ∧ SpelledUnion N rest

/-- A branch has names where names stand. -/
def Branch.Spelled (N : Naming) : Branch → Prop
  | ⟨_, items, sources, joins, criteria, group, having⟩ =>
    SpelledItems N items ∧ SpelledSources N sources ∧ SpelledJoins N joins ∧
      SpelledSome N criteria ∧ SpelledAll N group ∧ SpelledSome N having

/-- So do the items of a projection. -/
def SpelledItems (N : Naming) : List Item → Prop
  | [] => True
  | item :: rest => item.Spelled N ∧ SpelledItems N rest

/-- An item of a projection has names where names stand. -/
def Item.Spelled (N : Naming) : Item → Prop
  | .star => True
  | .tableStar table => N.name table
  | .expr value aliasName => value.Spelled N ∧ ∀ name ∈ aliasName, N.name name

/-- So do the sources after FROM. -/
def SpelledSources (N : Naming) : List Source → Prop
  | [] => True
  | source :: rest => source.Spelled N ∧ SpelledSources N rest

/-- A source has names where names stand. -/
def Source.Spelled (N : Naming) : Source → Prop
  | .table name aliasName => N.name name ∧ ∀ name ∈ aliasName, N.name name
  | .derived query aliasName => query.Spelled N ∧ N.name aliasName

/-- So do joins. -/
def SpelledJoins (N : Naming) : List Join → Prop
  | [] => True
  | ⟨_, source, condition⟩ :: rest =>
    source.Spelled N ∧ condition.Spelled N ∧ SpelledJoins N rest

/-- The condition of a join has names where names stand. -/
def JoinCondition.Spelled (N : Naming) : JoinCondition → Prop
  | .predicate e => e.Spelled N
  | .shared columns => ∀ column ∈ columns, N.name column
  | .unconditional => True

/-- So do the terms of an ORDER BY. -/
def SpelledOrder (N : Naming) : List OrderTerm → Prop
  | [] => True
  | ⟨value, _⟩ :: rest => value.Spelled N ∧ SpelledOrder N rest

/-- So do LIMIT and OFFSET. -/
def SpelledLimit (N : Naming) : Option Limit → Prop
  | none => True
  | some ⟨count, offset⟩ => count.Spelled N ∧ SpelledSome N offset

end

/-! ## Statements -/

/-- What an INSERT writes has names where names stand. -/
def InsertRows.Spelled (N : Naming) : InsertRows → Prop
  | .values rows => ∀ row ∈ rows, SpelledAll N row
  | .query select => select.Spelled N

/-- So does an assignment. -/
def Assignment.Spelled (N : Naming) (a : Assignment) : Prop := N.name a.column ∧ a.value.Spelled N

/-- A statement has names where names stand. -/
def Statement.Spelled (N : Naming) : Statement → Prop
  | .select query => query.Spelled N
  | .insert table columns rows =>
    N.name table ∧ (∀ column ∈ columns, N.name column) ∧ rows.Spelled N
  | .update table assignments criteria =>
    N.name table ∧ (∀ a ∈ assignments, a.Spelled N) ∧ SpelledSome N criteria
  | .delete table criteria => N.name table ∧ SpelledSome N criteria

end QuerySignature
