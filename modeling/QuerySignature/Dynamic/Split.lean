import QuerySignature.Dynamic.Annotation
import QuerySignature.Dynamic.Fragment
import QuerySignature.Error
import QuerySignature.Schema.Basic

namespace QuerySignature

/-! # Cutting a query into fragments

The first branch of a query is cut into its items, its sources and the conditions that its WHERE
joins with AND; the common tables are fragments too. Tables are told apart by the names under
which they are written, and a column without a table is taken to belong to the first source that
brings it.
-/

/-- The columns that an expression reads, each once. Of a column without a table the first known
column of that name is taken, if there is one. -/
def fieldsOf (known : List TableField) (e : Expr) : List TableField :=
  e.columns.foldl (fun done c =>
    let field :=
      if c.qualifier.isEmpty then known.find? fun field => sameName field.field c.name
      else some ⟨c.qualifier, c.name⟩
    match field with
    | some field => if done.any (·.sameAs field) then done else done ++ [field]
    | none => done) []

/-- The name of an item's column, when it has one of its own. -/
def itemName? : Item → Option String
  | .expr value aliasName => some (aliasName.getD ((value.column?.map (·.name)).getD value.text))
  | .star | .tableStar _ => none

/-- The names of the columns of a query's first branch, stars aside. -/
def projectedNames (query : Select) : List String :=
  match query.branches with
  | [] => []
  | branch :: _ => branch.items.filterMap itemName?

/-- The columns that a source brings. A common table is looked for before a table of the schema. -/
def sourceFields (schema : Schema) (ctes : List Cte) (source : Source) :
    Except AnalysisError (List TableField) :=
  let named (names : List String) : List TableField := names.map fun name => ⟨source.label, name⟩
  match source with
  | .derived query _ => .ok (named (projectedNames query))
  | .table name _ =>
    let table := lastSegment name
    match ctes.find? fun cte => sameName cte.name table with
    | some cte => .ok (named (projectedNames cte.query))
    | none =>
      match schema.columnsOf? table with
      | some columns => .ok (named (columns.map (·.column)))
      | none => .error (.unknownTable table)

/-- The columns that fragments bring. -/
def knownFields (fragments : List Fragment) : List TableField := fragments.flatMap (·.fields)

/-- The table that an ON condition mentions first beside the joined one. -/
def joinParent? (condition : JoinCondition) (relation : String) (known : List TableField) :
    Option String :=
  match condition with
  | .predicate e =>
    ((fieldsOf known e).find? fun field => !sameName field.table relation).map (·.table)
  | _ => none

/-- The fragments of the sources after FROM, behind those already made. -/
def sourceFragments (schema : Schema) (names : List String) (ctes : List Cte)
    (done : List Fragment) : List Source → Except AnalysisError (List Fragment)
  | [] => .ok done
  | source :: rest => do
    let text := (if done.isEmpty then "FROM " else ", ") ++ source.text
    let fields ← sourceFields schema ctes source
    let fragment : Fragment := {
      text
      relation := some source.label
      parent := done.head?.bind (·.relation)
      fields
      parameters := parameterIndexes text names }
    sourceFragments schema names ctes (done ++ [fragment]) rest

/-- The fragments of joins, behind those already made. -/
def joinFragments (schema : Schema) (names : List String) (ctes : List Cte)
    (done : List Fragment) : List Join → Except AnalysisError (List Fragment)
  | [] => .ok done
  | join :: rest => do
    let relation := join.source.label
    let fields ← sourceFields schema ctes join.source
    let parent := (joinParent? join.condition relation (knownFields done)).or
      (done.getLast?.bind (·.relation))
    let fragment : Fragment := {
      text := join.text
      relation := some relation
      parent
      fields
      parameters := parameterIndexes join.text names }
    joinFragments schema names ctes (done ++ [fragment]) rest

/-- The fragment of an item. -/
def itemFragment (names : List String) (sources : List Fragment) (item : Item) : Fragment :=
  let known := knownFields sources
  let parameters := parameterIndexes item.text names
  match item with
  | .star =>
    { text := item.text, fields := known, reads := sources.filterMap (·.relation), parameters }
  | .tableStar table =>
    { text := item.text
      fields := known.filter fun field => sameName field.table table
      reads := [table]
      parameters }
  | .expr value aliasName =>
    let fields := fieldsOf known value
    { text := item.text
      bareText := aliasName.map fun _ => value.text
      fields
      reads := distinct (fields.map (·.table))
      parameters }

/-- The fragment of a condition. -/
def conditionFragment (names : List String) (known : List TableField) (condition : Expr) :
    Fragment :=
  let text := "AND " ++ condition.text
  let parameters := parameterIndexes text names
  { text, fields := fieldsOf known condition, conditionOn := parameters, parameters }

/-- Whether a source is written as a table of the given name. -/
def Source.isTable (name : String) : Source → Bool
  | .table written _ => sameName written name
  | .derived .. => false

/-- The fragment of a common table; its relation is the name under which it is read first. -/
def cteFragment (names : List String) (sources : List Source) (cte : Cte) : Fragment :=
  let reader := sources.find? (·.isTable cte.name)
  { text := cte.text
    relation := some ((reader.map Source.label).getD cte.name)
    parameters := parameterIndexes cte.text names }

/-- The fragments of a query, with places counted in the given names of parameters. -/
def Fragments.ofQuery (schema : Schema) (names : List String) (query : Select) :
    Except AnalysisError Fragments :=
  match query.branches with
  | [] => .error (.unsupported query.text)
  | branch :: _ => do
    let listed ← sourceFragments schema names query.ctes [] branch.sources
    let sources ← joinFragments schema names query.ctes listed branch.joins
    let known := knownFields sources
    let read := branch.sources ++ branch.joins.map (·.source)
    let conditions := (branch.criteria.map Expr.conjuncts).getD []
    pure {
      ctes := query.ctes.map (cteFragment names read)
      items := branch.items.map (itemFragment names sources)
      sources
      conditions := conditions.map (conditionFragment names known) }

end QuerySignature
