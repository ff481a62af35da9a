import QuerySignature.Error
import QuerySignature.Scope.Basic

namespace QuerySignature

/-! # What a reference means

The innermost level with a column of the right name decides. Several such columns are one as long
as no name tells them apart; otherwise the reference is ambiguous. A reference that no level
answers names an unknown table, if it has a qualifier that is no visible table, and an unknown
column if not.

- `resolveIn_cons_nil`: a level without such a column is passed over.
-/

/-- The columns of a level that a reference may mean. -/
def Level.answers (level : Level) (c : ColumnRef) : List SourceColumn :=
  level.filter fun column => column.answers c.qualifier c.name

/-- The meaning of a reference in the innermost level that has one; `none` when no level has. -/
def resolveIn (c : ColumnRef) : List Level → Option (Except AnalysisError SourceColumn)
  | [] => none
  | level :: rest =>
    match level.answers c with
    | [] => resolveIn c rest
    | first :: others =>
      if others.all fun other => other.sameAs first then some (.ok first)
      else some (.error (.ambiguousColumn c.text
        ((first :: others).map fun column => (column.visibleTable, column.name))))

theorem resolveIn_cons_nil {c : ColumnRef} {level : Level} {rest : List Level}
    (h : level.answers c = []) : resolveIn c (level :: rest) = resolveIn c rest := by
  simp [resolveIn, h]

namespace Scope

/-- The columns of the innermost level that a reference could have meant, as text. -/
def candidates (scope : Scope) (c : ColumnRef) : List String :=
  (scope.columns.filter fun column => c.qualifier.isEmpty || column.isOf c.qualifier).map
    SourceColumn.qualifiedName

/-- Whether a table is visible under a name. -/
def hasTable (scope : Scope) (table : String) : Bool :=
  scope.levels.any fun level => level.any fun column => column.isOf table

/-- The column that a reference means. -/
def resolve (scope : Scope) (c : ColumnRef) : Except AnalysisError SourceColumn :=
  match resolveIn c scope.levels with
  | some meaning => meaning
  | none =>
    if !c.qualifier.isEmpty && !scope.hasTable c.qualifier then .error (.unknownTable c.qualifier)
    else .error (.unknownColumn c.text (scope.candidates c))

/-- The column that a reference means, if it means one. -/
def lookup? (scope : Scope) (c : ColumnRef) : Option SourceColumn := (scope.resolve c).toOption

/-- The column that an expression is, through parentheses, if it is one. -/
def columnOf? (scope : Scope) (e : Expr) : Option SourceColumn := e.column?.bind scope.lookup?

end Scope

end QuerySignature
