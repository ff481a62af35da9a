import QuerySignature.Analysis.Write
import QuerySignature.Description.Result
import QuerySignature.Dynamic.Needs
import QuerySignature.Dynamic.Split
import QuerySignature.Nesting.Tree

namespace QuerySignature

/-! # Describing statements

A description says what a statement takes and gives: its placeholders and output columns with
their types, and whether more than one row can come back. For a query it also has the relations of
the first branch and, if comment lines of its text ask for them, the object tree and the needs of
its fragments.
-/

/-- The kind of a statement. -/
inductive StatementKind where
  | select
  | insert
  | update
  | delete
  deriving DecidableEq, Repr, Inhabited

/-- The kind of a statement in words. -/
def StatementKind.text : StatementKind → String
  | select => "Select"
  | insert => "Insert"
  | update => "Update"
  | delete => "Delete"

/-- The kind of a statement. -/
def Statement.kind : Statement → StatementKind
  | .select _ => .select
  | .insert .. => .insert
  | .update .. => .update
  | .delete .. => .delete

/-- What a statement takes and gives. -/
structure Description where
  sql : String
  kind : StatementKind
  manyRows : Bool
  columns : List ResultColumn
  parameters : List ResultParameter
  /-- The placeholders in the assignments of an UPDATE; `parameters` holds the others. -/
  data : List ResultParameter
  relations : List Relation
  nesting : Option ObjectTree
  needs : Option Needs
  /-- The columns that a placeholder in ORDER BY may stand for, when there is one. -/
  sortable : Option (List String)
  deriving DecidableEq, Repr, Inhabited

/-- The types of a statement, as text. -/
structure TypeSummary where
  columns : List String
  parameters : List String
  deriving DecidableEq, Repr, Inhabited

/-- What the walk over a statement gives: the output of a query, and how many of the placeholders an
UPDATE writes. -/
structure Analysis where
  query : QueryResult
  written : Nat
  deriving Inhabited

/-- The analysis of a statement that gives no rows. -/
def Analysis.ofWrite (written : Nat) : Analysis := ⟨⟨[], [], false, none⟩, written⟩

/-- Analyses a statement. -/
def inferStatement (setting : Setting) : Statement → Analyze Analysis
  | .select query => do
    let result ← inferQuery setting [] query
    pure ⟨result, 0⟩
  | .insert table columns rows => do
    inferInsert setting table columns rows
    pure (.ofWrite 0)
  | .update table assignments criteria => do
    let written ← inferUpdate setting table assignments criteria
    pure (.ofWrite written)
  | .delete table criteria => do
    inferDelete setting table criteria
    pure (.ofWrite 0)

/-- The type of an output column: the widest of its types in the branches. -/
def OutputColumn.type (column : OutputColumn) (solution : Solution) (profile : Profile) : SqlType :=
  column.unionVars.foldl (fun type var => type.widest (solution.typeOf profile var))
    (solution.typeOf profile column.var)

/-- An output column with its type. -/
def OutputColumn.result (column : OutputColumn) (solution : Solution) (profile : Profile) :
    ResultColumn :=
  ⟨column.name, column.type solution profile, column.notNull, column.table⟩

/-- A placeholder with its type; without a name it is named by its place, counted from 1. -/
def Placeholder.result (p : Placeholder) (index : Nat) (solution : Solution) (profile : Profile) :
    ResultParameter :=
  { name := p.name.getD ("param" ++ toString (index + 1))
    type := solution.typeOf profile p.var
    notNull := p.notNull
    list := p.var.list }

/-- The description of a statement that has been analysed and solved. -/
def Description.of (profile : Profile) (statement : Statement) (analysis : Analysis) (run : Run)
    (solution : Solution) : Description :=
  let placeholders := run.placeholders.zipIdx.map fun (p, index) => p.result index solution profile
  let written := match statement.kind with
    | .update => analysis.written
    | _ => 0
  { sql := statement.text
    kind := statement.kind
    manyRows := analysis.query.manyRows
    columns := analysis.query.columns.map (·.result solution profile)
    parameters := placeholders.drop written
    data := placeholders.take written
    relations := analysis.query.relations
    nesting := none
    needs := none
    sortable := analysis.query.sortable }

/-- Describes a statement. -/
def describe (setting : Setting) (statement : Statement) : Except AnalysisError Description :=
  let (analysis, run) := (inferStatement setting statement).runFrom .start
  match analysis with
  | .error e => .error e
  | .ok analysis =>
    match solve setting.profile run.constraints with
    | .error clash => .error (.clash clash)
    | .ok solution => .ok (.of setting.profile statement analysis run solution)

/-- Describes each statement on its own. -/
def describeAll (setting : Setting) (statements : List Statement) :
    List (Except AnalysisError Description) :=
  statements.map (describe setting)

/-- The types of a description; the placeholders of the assignments come first. -/
def Description.types (d : Description) : TypeSummary :=
  ⟨d.columns.map (·.type.name), (d.data ++ d.parameters).map ResultParameter.typeText⟩

/-! ## Annotated text -/

/-- The needs of a query's fragments. -/
def Select.needs (schema : Schema) (query : Select) : Except AnalysisError Needs :=
  let names := namedParameters query.text
  let order := query.order.filterMap fun term => term.value.column?.map ColumnRef.text
  (Fragments.ofQuery schema names query).map fun fragments => fragments.needs names order

/-- Describes a statement and does what the comment lines of its text ask for. -/
def describeAnnotated (setting : Setting) (sql : String) (statement : Statement) :
    Except AnalysisError Description := do
  let description ← describe setting statement
  match statement with
  | .select query =>
    let annotations := Annotations.ofText sql
    let needs ← if annotations.dynamic then (query.needs setting.schema).map some else pure none
    pure { description with
      sql
      nesting :=
        if annotations.nested then some (.build description.columns description.relations) else none
      needs }
  | _ => pure { description with sql }

end QuerySignature
