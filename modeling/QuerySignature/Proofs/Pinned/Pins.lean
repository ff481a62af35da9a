import QuerySignature.Analysis.Write

namespace QuerySignature

/-! # What a compared placeholder is compared with

Which column a reference means can be read off the text and the schema, without any analysis of types:
a table shows the columns that it is declared with, a query the names that it projects. So can be read
off which placeholders are compared with a column of a table, and of which type that is declared.

- `Select.names`, `Source.level`, `Branch.level`: the columns that a query, a source and a FROM clause
  show.
- `Statement.pins`: the placeholders of a statement, in the order of its text, each with the declared
  type of the column that it is compared with, if there is one.
-/

/-! ## Shown columns -/

/-- A column of a table of the schema. -/
def declaredColumn (aliasName : String) (record : ColumnRecord) : SourceColumn :=
  ⟨record.table, aliasName, record.column, ⟨0, record.column, .exact record.type, false, false⟩,
    record.key, record.notNull⟩

/-- A column that a query projects. -/
def projectedColumn (table name : String) : SourceColumn :=
  ⟨table, "", name, ⟨0, name, .unknown, false, true⟩, .plain, false⟩

/-- The declared type of a column of a table. -/
def SourceColumn.declaredType? (c : SourceColumn) : Option SqlType :=
  match c.var.projected, c.var.info with
  | false, .exact type => some type
  | _, _ => none

/-- The names of the columns that an item of a projection stands for. -/
def Item.names (level : Level) : Item → List String
  | .star => level.map (·.name)
  | .tableStar table => (level.ofTable table).map (·.name)
  | .expr value aliasName => [outputName value aliasName]

/-- The columns of a table, by the common tables and the schema. -/
def tableLevel (schema : Schema) (ctes : List (String × Level)) (name aliasName : String) : Level :=
  match ctes.find? fun entry => sameName entry.1 (lastSegment name) with
  | some entry => entry.2.map fun column => { column with aliasName }
  | none => ((schema.columnsOf? (lastSegment name)).getD []).map (declaredColumn aliasName)

mutual

/-- The names of the columns that a query projects, where the given common tables are known. -/
def Select.names (schema : Schema) (ctes : List (String × Level)) : Select → List String
  | ⟨own, branches, _, _⟩ => namesOfFirst schema (knownWith schema ctes own) branches

/-- The names that the first of some branches projects. -/
def namesOfFirst (schema : Schema) (ctes : List (String × Level)) : List Branch → List String
  | [] => []
  | branch :: _ => branch.names schema ctes

/-- The known common tables with some more, the one declared last in front. -/
def knownWith (schema : Schema) (ctes : List (String × Level)) : List Cte → List (String × Level)
  | [] => ctes
  | ⟨name, query⟩ :: rest =>
    knownWith schema ((name, (query.names schema ctes).map (projectedColumn name)) :: ctes) rest

/-- The names that a branch projects. -/
def Branch.names (schema : Schema) (ctes : List (String × Level)) : Branch → List String
  | ⟨_, items, sources, joins, _, _, _⟩ =>
    items.flatMap
      (Item.names (joinedLevel schema ctes (listedLevel schema ctes [] sources) joins))

/-- The columns behind some that listed sources add. -/
def listedLevel (schema : Schema) (ctes : List (String × Level)) (done : Level) :
    List Source → Level
  | [] => done
  | source :: rest => listedLevel schema ctes (done ++ source.level schema ctes) rest

/-- The columns that a source shows. -/
def Source.level (schema : Schema) (ctes : List (String × Level)) : Source → Level
  | .table name aliasName => tableLevel schema ctes name (aliasName.getD "")
  | .derived query aliasName => (query.names schema ctes).map (projectedColumn aliasName)

/-- The columns behind some that joins add. -/
def joinedLevel (schema : Schema) (ctes : List (String × Level)) (done : Level) : List Join → Level
  | [] => done
  | ⟨_, source, condition⟩ :: rest =>
    joinedLevel schema ctes (done ++ condition.added (source.level schema ctes)) rest

end

/-- The columns that the FROM clause of a branch shows. -/
def Branch.level (schema : Schema) (ctes : List (String × Level)) (b : Branch) : Level :=
  joinedLevel schema ctes (listedLevel schema ctes [] b.sources) b.joins

/-- What the first of some branches shows behind its FROM. -/
def firstLevel (schema : Schema) (ctes : List (String × Level)) : List Branch → Level
  | [] => []
  | branch :: _ => branch.level schema ctes

/-! ## Compared placeholders -/

mutual

/-- The placeholders of an expression, each with the declared type of the column of a table that it is
compared with, if there is one. -/
def Expr.pins (schema : Schema) (ctes : List (String × Level)) (scope : Scope) :
    Expr → List (Option SqlType)
  | .literal _ | .column _ | .star => []
  | .parameter _ => [none]
  | .paren inner => inner.pins schema ctes scope
  | .compare _ left right =>
    (if left.isParameter then [(scope.columnOf? right).bind SourceColumn.declaredType?]
      else left.pins schema ctes scope) ++
    (if right.isParameter then [(scope.columnOf? left).bind SourceColumn.declaredType?]
      else right.pins schema ctes scope)
  | .arithmetic _ left right | .and left right | .or left right | .like _ left right =>
    left.pins schema ctes scope ++ right.pins schema ctes scope
  | .between _ value low high =>
    value.pins schema ctes scope ++ low.pins schema ctes scope ++ high.pins schema ctes scope
  | .inList _ value items => value.pins schema ctes scope ++ pinsOfAll schema ctes scope items
  | .inQuery _ value query =>
    value.pins schema ctes scope ++ query.pins schema ctes scope.levels
  | .isNull _ value | .not value => value.pins schema ctes scope
  | .call _ _ arguments => pinsOfAll schema ctes scope arguments
  | .case operand branches otherwise =>
    pinsOfSome schema ctes scope operand ++ pinsOfBranches schema ctes scope branches ++
      pinsOfSome schema ctes scope otherwise
  | .scalar query | .hasRows query => query.pins schema ctes scope.levels

/-- The placeholders of some expressions. -/
def pinsOfAll (schema : Schema) (ctes : List (String × Level)) (scope : Scope) :
    List Expr → List (Option SqlType)
  | [] => []
  | e :: rest => e.pins schema ctes scope ++ pinsOfAll schema ctes scope rest

/-- The placeholders of an expression that may be missing. -/
def pinsOfSome (schema : Schema) (ctes : List (String × Level)) (scope : Scope) :
    Option Expr → List (Option SqlType)
  | none => []
  | some e => e.pins schema ctes scope

/-- The placeholders of the branches of a CASE. -/
def pinsOfBranches (schema : Schema) (ctes : List (String × Level)) (scope : Scope) :
    List WhenThen → List (Option SqlType)
  | [] => []
  | ⟨condition, result⟩ :: rest =>
    condition.pins schema ctes scope ++ result.pins schema ctes scope ++
      pinsOfBranches schema ctes scope rest

/-- The placeholders of a query that sees the given levels around it. -/
def Select.pins (schema : Schema) (ctes : List (String × Level)) (outer : List Level) :
    Select → List (Option SqlType)
  | ⟨own, branches, order, limit⟩ =>
    let known := knownWith schema ctes own
    let level := firstLevel schema known branches
    let names := (namesOfFirst schema known branches).map (projectedColumn "")
    pinsOfCtes schema ctes outer own ++ pinsOfUnion schema known outer branches ++
      pinsOfOrder schema known ⟨names, level :: outer⟩ order ++
      pinsOfLimit schema known ⟨level, outer⟩ limit

/-- The placeholders of common tables. -/
def pinsOfCtes (schema : Schema) (ctes : List (String × Level)) (outer : List Level) :
    List Cte → List (Option SqlType)
  | [] => []
  | ⟨name, query⟩ :: rest =>
    query.pins schema ctes outer ++
      pinsOfCtes schema ((name, (query.names schema ctes).map (projectedColumn name)) :: ctes) outer
        rest

/-- The placeholders of the branches of a query. -/
def pinsOfUnion (schema : Schema) (ctes : List (String × Level)) (outer : List Level) :
    List Branch → List (Option SqlType)
  | [] => []
  | branch :: rest => branch.pins schema ctes outer ++ pinsOfUnion schema ctes outer rest

/-- The placeholders of a branch. -/
def Branch.pins (schema : Schema) (ctes : List (String × Level)) (outer : List Level) :
    Branch → List (Option SqlType)
  | ⟨_, items, sources, joins, criteria, group, having⟩ =>
    let listed := listedLevel schema ctes [] sources
    let level := joinedLevel schema ctes listed joins
    let names := (items.flatMap (Item.names level)).map (projectedColumn "")
    pinsOfItems schema ctes ⟨level, outer⟩ items ++ pinsOfSources schema ctes sources ++
      pinsOfJoins schema ctes outer listed joins ++ pinsOfSome schema ctes ⟨level, outer⟩ criteria ++
      pinsOfAll schema ctes ⟨level, names :: outer⟩ group ++
      pinsOfSome schema ctes ⟨level, names :: outer⟩ having

/-- The placeholders of the items of a projection. -/
def pinsOfItems (schema : Schema) (ctes : List (String × Level)) (scope : Scope) :
    List Item → List (Option SqlType)
  | [] => []
  | item :: rest => item.pins schema ctes scope ++ pinsOfItems schema ctes scope rest

/-- The placeholders of an item of a projection. -/
def Item.pins (schema : Schema) (ctes : List (String × Level)) (scope : Scope) :
    Item → List (Option SqlType)
  | .star | .tableStar _ => []
  | .expr value _ => value.pins schema ctes scope

/-- The placeholders of listed sources. -/
def pinsOfSources (schema : Schema) (ctes : List (String × Level)) :
    List Source → List (Option SqlType)
  | [] => []
  | source :: rest => source.pins schema ctes ++ pinsOfSources schema ctes rest

/-- The placeholders of a source. -/
def Source.pins (schema : Schema) (ctes : List (String × Level)) : Source → List (Option SqlType)
  | .table _ _ => []
  | .derived query _ => query.pins schema ctes []

/-- The placeholders of joins behind sources that show some columns. -/
def pinsOfJoins (schema : Schema) (ctes : List (String × Level)) (outer : List Level)
    (done : Level) : List Join → List (Option SqlType)
  | [] => []
  | ⟨_, source, condition⟩ :: rest =>
    let level := source.level schema ctes
    source.pins schema ctes ++ condition.pins schema ctes ⟨done ++ level, outer⟩ ++
      pinsOfJoins schema ctes outer (done ++ condition.added level) rest

/-- The placeholders of the condition of a join. -/
def JoinCondition.pins (schema : Schema) (ctes : List (String × Level)) (scope : Scope) :
    JoinCondition → List (Option SqlType)
  | .predicate e => e.pins schema ctes scope
  | .shared _ | .unconditional => []

/-- The placeholders of an ORDER BY; as a whole term a placeholder stands for a column. -/
def pinsOfOrder (schema : Schema) (ctes : List (String × Level)) (scope : Scope) :
    List OrderTerm → List (Option SqlType)
  | [] => []
  | ⟨value, _⟩ :: rest =>
    (if value.isParameter then [] else value.pins schema ctes scope) ++
      pinsOfOrder schema ctes scope rest

/-- The placeholders of LIMIT and OFFSET. -/
def pinsOfLimit (schema : Schema) (ctes : List (String × Level)) (scope : Scope) :
    Option Limit → List (Option SqlType)
  | none => []
  | some ⟨count, offset⟩ => count.pins schema ctes scope ++ pinsOfSome schema ctes scope offset

end

/-- The placeholders of a statement, each with the declared type of the column of a table that it is
compared with, if there is one. -/
def Statement.pins (schema : Schema) : Statement → List (Option SqlType)
  | .select query => query.pins schema [] []
  | .insert _ _ (.values rows) => rows.flatMap (pinsOfAll schema [] .empty)
  | .insert _ _ (.query query) => query.pins schema [] []
  | .update table assignments criteria =>
    let scope : Scope := ⟨tableLevel schema [] table "", []⟩
    assignments.flatMap (fun a => a.value.pins schema [] scope) ++
      pinsOfSome schema [] scope criteria
  | .delete table criteria => pinsOfSome schema [] ⟨tableLevel schema [] table "", []⟩ criteria

end QuerySignature
