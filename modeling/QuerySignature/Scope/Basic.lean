import QuerySignature.Schema.Basic
import QuerySignature.Syntax.Basic
import QuerySignature.TypeVar

namespace QuerySignature

/-! # Visible columns

A column is visible under the alias of its table, or under the table's own name when it has no
alias. The columns of one FROM clause make a level; a query inside another sees its own level
first and then those around it.
-/

/-- A column that an expression may refer to. -/
structure SourceColumn where
  table : String
  /-- Empty when the table has none. -/
  aliasName : String
  name : String
  var : TypeVar
  key : KeyRole
  notNull : Bool
  deriving DecidableEq, Repr, Inhabited

namespace SourceColumn

/-- The name under which the column's table is visible. -/
def visibleTable (c : SourceColumn) : String := if c.aliasName.isEmpty then c.table else c.aliasName

/-- The column written with its visible table. -/
def qualifiedName (c : SourceColumn) : String := c.visibleTable ++ "." ++ c.name

/-- Whether the column belongs to the table visible under a name. -/
def isOf (c : SourceColumn) (table : String) : Bool := sameName c.visibleTable table

/-- Whether a reference with this qualifier and name may mean the column. -/
def answers (c : SourceColumn) (qualifier name : String) : Bool :=
  sameName c.name name && (qualifier.isEmpty || c.isOf qualifier)

/-- Whether two columns are indistinguishable by name. -/
def sameAs (c d : SourceColumn) : Bool :=
  sameName c.visibleTable d.visibleTable && sameName c.name d.name

/-- The column as it is seen through an outer join that may miss its row. -/
def nullable (c : SourceColumn) : SourceColumn := { c with notNull := false }

end SourceColumn

/-- The columns of one FROM clause. -/
abbrev Level := List SourceColumn

/-- The columns an expression sees: its own level, and those around it from the inside out. -/
structure Scope where
  columns : Level
  outer : List Level
  deriving Repr, Inhabited

namespace Scope

/-- The scope without columns. -/
def empty : Scope := ⟨[], []⟩

/-- All levels, from the inside out. -/
def levels (scope : Scope) : List Level := scope.columns :: scope.outer

end Scope

end QuerySignature
