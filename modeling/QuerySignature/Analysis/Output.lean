import QuerySignature.Analysis.Run
import QuerySignature.Distinct
import QuerySignature.NotNull
import QuerySignature.Relation.Link
import QuerySignature.RowCount

namespace QuerySignature

/-! # What a query gives

The output columns of a branch and of a whole query, and what is read off them once the
expressions are analysed: columns proven not null, renamed join columns, sortable columns, and the
shape that decides the number of rows.
-/

/-- An output column. -/
structure OutputColumn where
  name : String
  var : TypeVar
  /-- The same column in the other branches of a UNION. -/
  unionVars : List TypeVar
  notNull : Bool
  /-- The visible table of the column that it is a reference to, empty when it is none. -/
  table : String
  source : Option SourceColumn
  placeholder : Option Nat
  aggregate : Bool
  deriving DecidableEq, Repr, Inhabited

namespace OutputColumn

/-- An expression as an output column. -/
def ofInferred (name : String) (e : Inferred) : OutputColumn :=
  { name
    var := e.var
    unionVars := []
    notNull := e.notNull
    table := e.table
    source := e.source
    placeholder := e.placeholder
    aggregate := e.aggregate }

/-- The column as a query around it sees it. -/
def asSource (table : String) (column : OutputColumn) : SourceColumn :=
  { table
    aliasName := ""
    name := column.name
    var := column.var.asProjected
    key := .plain
    notNull := column.notNull }

/-- The column with the same column of another branch. -/
def union (column other : OutputColumn) : OutputColumn :=
  { column with
    unionVars := column.unionVars ++ [other.var]
    notNull := column.notNull && other.notNull }

end OutputColumn

/-- Output columns as a level of their own. -/
def levelOf (table : String) (columns : List OutputColumn) : Level :=
  columns.map (OutputColumn.asSource table)

/-- A branch after its analysis. -/
structure BranchResult where
  columns : List OutputColumn
  relations : List Relation
  /-- The columns of its FROM clause. -/
  visible : Level
  shape : RowShape
  deriving Repr, Inhabited

/-- A query after its analysis. -/
structure QueryResult where
  columns : List OutputColumn
  relations : List Relation
  manyRows : Bool
  /-- The columns that a placeholder in ORDER BY may stand for, when there is one. -/
  sortable : Option (List String)
  deriving Repr, Inhabited

/-! ## Branches -/

/-- The name of a projected expression: its alias, or the name of the column that it is, or its
text. -/
def outputName (value : Expr) (aliasName : Option String) : String :=
  match aliasName, value.column? with
  | some aliasName, _ => aliasName
  | none, some c => c.name
  | none, none => value.text

/-- The columns of a level that a qualified star stands for. -/
def Level.ofTable (level : Level) (table : String) : Level := level.filter (·.isOf table)

/-- Marks the columns not null that a criterion proves so. -/
def proveColumns (scope : Scope) (criteria : Option Expr) (columns : List OutputColumn) :
    List OutputColumn :=
  columns.map fun column =>
    let proven := match criteria, column.source with
      | some criteria, some source => scope.provesNotNull source criteria
      | _, _ => false
    { column with notNull := column.notNull || proven }

/-- The name under which the join column of a relation is projected, if it is a new one. -/
def Relation.renamed? (relation : Relation) (column : OutputColumn) : Option String :=
  match column.source with
  | some source =>
    if relation.answers source.visibleTable && sameName source.name relation.joinColumn &&
        column.name != source.name then
      some column.name
    else none
  | none => none

/-- Relations with their join columns under the names they are projected with. -/
def renameJoinColumns (columns : List OutputColumn) (relations : List Relation) : List Relation :=
  relations.map fun relation =>
    match columns.findSome? relation.renamed? with
    | some name => { relation with joinColumn := name }
    | none => relation

/-- Whether a branch reads exactly one table and joins nothing. -/
def readsOneTable (sources : List Source) (joins : List Join) : Bool :=
  match sources, joins with
  | [.table _ _], [] => true
  | _, _ => false

/-- The features of a branch on which the number of rows depends. -/
def branchShape (scope : Scope) (sources : List Source) (joins : List Join) (criteria : Option Expr)
    (group : List Expr) (columns : List OutputColumn) : RowShape where
  union := false
  grouped := !group.isEmpty
  hasSource := !sources.isEmpty
  allAggregates := !columns.isEmpty && columns.all (·.aggregate)
  keyFixed := readsOneTable sources joins && criteria.any scope.fixesKey
  limitOne := false

/-- The result of a branch, from its FROM clause and its projected columns. -/
def BranchResult.of (clause : Sources) (scope : Scope) (sources : List Source) (joins : List Join)
    (criteria : Option Expr) (group : List Expr) (projected : List OutputColumn) : BranchResult :=
  let columns := proveColumns scope criteria projected
  { columns
    relations := renameJoinColumns columns clause.relations
    visible := scope.columns
    shape := branchShape scope sources joins criteria group columns }

/-! ## Queries -/

/-- The columns of a query: those of the first branch together with each further one's. The branches
must have equally many. -/
def unionColumns (columns : List OutputColumn) :
    List BranchResult → Except AnalysisError (List OutputColumn)
  | [] => .ok columns
  | branch :: rest =>
    if branch.columns.length = columns.length then
      unionColumns (List.zipWith OutputColumn.union columns branch.columns) rest
    else .error (.wrongColumnCount columns.length branch.columns.length)

/-- What a placeholder in ORDER BY may stand for: an output column, or a column of the FROM clause
with its table. -/
def sortableNames (columns : List OutputColumn) (visible : Level) : List String :=
  distinct (columns.map (·.name) ++ visible.map SourceColumn.qualifiedName)

/-- The result of a query, from its first branch and the columns of all. -/
def QueryResult.of (first : BranchResult) (columns : List OutputColumn) (branches : List Branch)
    (order : List OrderTerm) (limit : Option Limit) : QueryResult :=
  let shape := { first.shape with
    union := decide (1 < branches.length)
    limitOne := limit.any Limit.isOne }
  { columns
    relations := first.relations
    manyRows := shape.manyRows
    sortable :=
      if order.any OrderTerm.isParameter then some (sortableNames columns first.visible) else none }

end QuerySignature
