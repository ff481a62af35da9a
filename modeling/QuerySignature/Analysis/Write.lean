import QuerySignature.Analysis.Query

namespace QuerySignature

/-! # Analysing statements that write

An INSERT ties every value to the column it goes to, an UPDATE every assigned value to its column.
A bare placeholder that is written is as nullable as its column.
-/

/-- The columns that an INSERT writes: those it names, or all of the table. -/
def targetColumns (all : Level) (names : List String) : Except AnalysisError Level :=
  if names.isEmpty then .ok all
  else names.mapM fun name =>
    match all.find? fun column => sameName column.name name with
    | some column => .ok column
    | none =>
      .error (.unknownColumn name (all.map fun column => column.table ++ "." ++ column.name))

/-- A value on its way into a column: its variable, and its place if it is a placeholder. -/
structure Written where
  var : TypeVar
  placeholder : Option Nat
  deriving DecidableEq, Repr, Inhabited

/-- Makes the variables of the columns that values go to. -/
def bindTargets : Level → List Written → Analyze (List TypeVar)
  | target :: targets, value :: values => do
    let var ← reference target
    matchNull value.placeholder target
    let vars ← bindTargets targets values
    pure (var :: vars)
  | _, _ => pure []

/-- Ties a row of as many values to the columns they go to. -/
def bindRow (label : String) (targets : Level) (values : List Written) : Analyze Unit := do
  let vars ← bindTargets targets values
  demand (.strict label (.ofVars vars) (.ofVars (values.map (·.var))))

/-- Analyses the rows of an INSERT. -/
def inferRows (setting : Setting) (targets : Level) : List (List Expr) → Analyze Unit
  | [] => pure ()
  | row :: rest => do
    if row.length ≠ targets.length then
      throw (.wrongColumnCount targets.length row.length)
    let values ← inferAll setting .empty row
    bindRow (rowText row) targets (values.map fun value => ⟨value.var, value.placeholder⟩)
    inferRows setting targets rest

/-- Analyses an INSERT. -/
def inferInsert (setting : Setting) (table : String) (columns : List String) (rows : InsertRows) :
    Analyze Unit := do
  let all ← tableColumns setting.schema table none
  let targets ← lift (targetColumns all columns)
  match rows with
  | .values rows => inferRows setting targets rows
  | .query query =>
    let result ← inferQuery setting [] query
    if result.columns.length ≠ targets.length then
      throw (.wrongColumnCount targets.length result.columns.length)
    bindRow query.text targets (result.columns.map fun column => ⟨column.var, column.placeholder⟩)

/-- Analyses the assignments of an UPDATE. -/
def inferAssignments (setting : Setting) (scope : Scope) : List Assignment → Analyze Unit
  | [] => pure ()
  | assignment :: rest => do
    let target ← resolve scope (.ofText assignment.column)
    let value ← inferExpr setting scope assignment.value
    let var ← reference target
    demand (.strict assignment.text (.var var) (.var value.var))
    matchNull value.placeholder target
    inferAssignments setting scope rest

/-- Analyses an UPDATE; gives the number of placeholders in its assignments. -/
def inferUpdate (setting : Setting) (table : String) (assignments : List Assignment)
    (criteria : Option Expr) : Analyze Nat := do
  let columns ← tableColumns setting.schema table none
  let scope : Scope := ⟨columns, []⟩
  inferAssignments setting scope assignments
  let written := (← get).placeholders.length
  let _ ← inferSome setting scope criteria
  pure written

/-- Analyses a DELETE. -/
def inferDelete (setting : Setting) (table : String) (criteria : Option Expr) : Analyze Unit := do
  let columns ← tableColumns setting.schema table none
  let _ ← inferSome setting ⟨columns, []⟩ criteria
  pure ()

end QuerySignature
