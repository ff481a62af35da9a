import QuerySignature.Profile
import QuerySignature.Scope.Resolve

namespace QuerySignature

/-! # A run

A statement is analysed in one walk. The walk numbers the type variables it makes, collects the
constraints between them and the placeholders in the order of the text, and knows the common
tables that may be read at the point it has reached. A step that fails leaves in the run what it
has added.

- `Analyze.runFrom_bind`: a step after another goes on from the run that the first one left.
- `keepingCtes_ctes`: a query leaves the common tables as it found them.
-/

/-- What an analysis is made against. -/
structure Setting where
  schema : Schema
  profile : Profile
  deriving Inhabited

/-- A placeholder met in a run. -/
structure Placeholder where
  var : TypeVar
  name : Option String
  notNull : Bool
  deriving DecidableEq, Repr, Inhabited

/-- The state of a run. -/
structure Run where
  /-- How many type variables there are; they are numbered from 1. -/
  issued : Nat
  constraints : List Constraint
  placeholders : List Placeholder
  /-- The columns of the common tables, the one declared last in front. -/
  ctes : List (String × Level)
  deriving Inhabited

/-- The run in which nothing has happened yet. -/
def Run.start : Run := ⟨0, [], [], []⟩

/-- A step of an analysis. -/
abbrev Analyze (α : Type) : Type := ExceptT AnalysisError (StateM Run) α

/-- Runs a step: what it gives or why it fails, and the run after it. -/
def Analyze.runFrom {α : Type} (step : Analyze α) (run : Run) : Except AnalysisError α × Run :=
  StateT.run (ExceptT.run step) run

namespace Analyze

@[simp] theorem runFrom_pure {α : Type} (value : α) (run : Run) :
    (pure value : Analyze α).runFrom run = (.ok value, run) := rfl

@[simp] theorem runFrom_throw {α : Type} (e : AnalysisError) (run : Run) :
    (throw e : Analyze α).runFrom run = (.error e, run) := rfl

/-- The second of two steps goes on from the run after the first, unless that one failed. -/
theorem runFrom_bind {α β : Type} (step : Analyze α) (next : α → Analyze β) (run : Run) :
    (step >>= next).runFrom run =
      match step.runFrom run with
      | (.ok value, after) => (next value).runFrom after
      | (.error e, after) => (.error e, after) := by
  show (ExceptT.bindCont next (step run).1) (step run).2 = _
  simp only [runFrom, ExceptT.run, StateT.run]
  rcases step run with ⟨result, after⟩
  cases result <;> rfl

end Analyze

/-- What is found out about an expression. -/
structure Inferred where
  var : TypeVar
  notNull : Bool
  /-- The place among the placeholders, when the expression is one. -/
  placeholder : Option Nat
  /-- The column, when the expression is a reference to one. -/
  source : Option SourceColumn
  aggregate : Bool
  deriving DecidableEq, Repr, Inhabited

namespace Inferred

/-- An expression that is neither placeholder nor column. -/
def ofVar (var : TypeVar) (notNull : Bool) : Inferred := ⟨var, notNull, none, none, false⟩

/-- A placeholder. -/
def ofPlaceholder (var : TypeVar) (index : Nat) : Inferred := ⟨var, false, some index, none, false⟩

/-- A reference to a column. -/
def ofColumn (var : TypeVar) (column : SourceColumn) : Inferred :=
  ⟨var, column.notNull, none, some column, false⟩

/-- The visible table of the column that the expression is, empty when it is none. -/
def table (e : Inferred) : String := (e.source.map SourceColumn.visibleTable).getD ""

end Inferred

/-! ## Steps -/

/-- Makes a type variable. -/
def fresh (label : String) (info : TypeInfo) : Analyze TypeVar := do
  let run ← get
  set { run with issued := run.issued + 1 }
  pure ⟨run.issued + 1, label, info, false, false⟩

theorem runFrom_fresh (label : String) (info : TypeInfo) (run : Run) :
    (fresh label info).runFrom run =
      (.ok ⟨run.issued + 1, label, info, false, false⟩,
        { run with issued := run.issued + 1 }) := rfl

/-- Makes a type variable of a known type. -/
def freshExact (label : String) (type : SqlType) : Analyze TypeVar := fresh label (.exact type)

/-- Adds a constraint. -/
def demand (c : Constraint) : Analyze Unit :=
  modify fun run => { run with constraints := run.constraints ++ [c] }

theorem runFrom_demand (c : Constraint) (run : Run) :
    (demand c).runFrom run =
      (.ok (), { run with constraints := run.constraints ++ [c] }) := rfl

/-- Adds a placeholder, as one value or as a whole list. -/
def addPlaceholder (name : Option String) (list : Bool) : Analyze Inferred := do
  let made ← fresh (parameterText name) .unknown
  let var : TypeVar := { made with list }
  let run ← get
  let placeholder : Placeholder := ⟨var, name, false⟩
  set { run with placeholders := run.placeholders ++ [placeholder] }
  pure (.ofPlaceholder var run.placeholders.length)

theorem runFrom_addPlaceholder (name : Option String) (list : Bool) (run : Run) :
    (addPlaceholder name list).runFrom run =
      let var : TypeVar := ⟨run.issued + 1, parameterText name, .unknown, list, false⟩
      (.ok (.ofPlaceholder var run.placeholders.length),
        { run with
          issued := run.issued + 1
          placeholders := run.placeholders ++ [⟨var, name, false⟩] }) := rfl

/-- Sets whether a placeholder may be null; without effect if there is none at the place. -/
def setNotNull (index : Nat) (notNull : Bool) : Analyze Unit :=
  modify fun run =>
    { run with placeholders := run.placeholders.modify index fun p => { p with notNull } }

theorem runFrom_setNotNull (index : Nat) (notNull : Bool) (run : Run) :
    (setNotNull index notNull).runFrom run =
      (.ok (), { run with
        placeholders := run.placeholders.modify index fun p => { p with notNull } }) := rfl

/-- If an expression is a placeholder, makes it not null. -/
def forceNotNull (e : Inferred) : Analyze Unit :=
  match e.placeholder with
  | some index => setNotNull index true
  | none => pure ()

/-- If an expression is a placeholder, makes it as nullable as the column it is written to. -/
def matchNull (e : Option Nat) (column : SourceColumn) : Analyze Unit :=
  match e with
  | some index => setNotNull index column.notNull
  | none => pure ()

/-- Makes the variable of a reference to a column. A reference to an output column of an inner query
stays tied to that column. -/
def reference (column : SourceColumn) : Analyze TypeVar := do
  if column.var.projected then
    let var ← fresh column.qualifiedName .unknown
    demand (.bestEffort column.qualifiedName var column.var)
    pure var
  else
    fresh column.qualifiedName column.var.info

/-- The meaning of a reference. -/
def resolve (scope : Scope) (c : ColumnRef) : Analyze SourceColumn :=
  match scope.resolve c with
  | .ok column => pure column
  | .error e => throw e

/-! ## Tables -/

/-- The common table of a name. -/
def Run.cte? (run : Run) (name : String) : Option Level :=
  (run.ctes.find? fun entry => sameName entry.1 name).map (·.2)

/-- Makes the columns of a table of the schema. -/
def freshColumns (aliasName : String) : List ColumnRecord → Analyze Level
  | [] => pure []
  | record :: rest => do
    let var ← freshExact record.column record.type
    let columns ← freshColumns aliasName rest
    pure (⟨record.table, aliasName, record.column, var, record.key, record.notNull⟩ :: columns)

/-- The columns of a table, visible under an alias if one is given. Only the last segment of the
name counts, and a common table hides a table of the schema. -/
def tableColumns (schema : Schema) (name : String) (aliasName : Option String) : Analyze Level := do
  let table := lastSegment name
  let aliasName := aliasName.getD ""
  match (← get).cte? table with
  | some columns => pure (columns.map fun column => { column with aliasName })
  | none =>
    match schema.columnsOf? table with
    | some records => freshColumns aliasName records
    | none => throw (.unknownTable table)

/-- Makes a common table known, in front of an earlier one of the same name. -/
def declareCte (name : String) (columns : Level) : Analyze Unit :=
  modify fun run => { run with ctes := (name, columns) :: run.ctes }

/-- Runs a step and then forgets the common tables that it has declared. -/
def keepingCtes {α : Type} (step : Analyze α) : Analyze α :=
  fun run =>
    let (result, after) := step.runFrom run
    (result, { after with ctes := run.ctes })

theorem keepingCtes_ctes {α : Type} (step : Analyze α) (run : Run) :
    ((keepingCtes step).runFrom run).2.ctes = run.ctes := rfl

/-! ## Placeholders out of text order -/

/-- Takes the placeholders from a place on out of the run. -/
def cutPlaceholders (start : Nat) : Analyze (List Placeholder) := do
  let run ← get
  set { run with placeholders := run.placeholders.take start }
  pure (run.placeholders.drop start)

theorem runFrom_cutPlaceholders (start : Nat) (run : Run) :
    (cutPlaceholders start).runFrom run =
      (.ok (run.placeholders.drop start),
        { run with placeholders := run.placeholders.take start }) := rfl

/-- Puts placeholders back at the end. -/
def appendPlaceholders (placeholders : List Placeholder) : Analyze Unit :=
  modify fun run => { run with placeholders := run.placeholders ++ placeholders }

end QuerySignature
