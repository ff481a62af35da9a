import QuerySignature.Analysis.Function
import QuerySignature.Analysis.Output

namespace QuerySignature

/-! # Analysing expressions and queries

Every expression gets a type variable and, from its form, constraints on it; every query its
output columns. Parts are analysed in the order of the text, with two exceptions: a FROM clause
comes before the projection that reads its columns, though its placeholders are counted behind
those of the projection, and all branches of a query come before its ORDER BY and LIMIT.
-/

/-! ## Forms of expressions -/

/-- The variable of a condition; a condition is never null. -/
def predicate (setting : Setting) (label : String) : Analyze Inferred := do
  let var ← freshExact label setting.profile.predicateType
  pure (.ofVar var true)

/-- A literal; only NULL may be null, and of it and of truth values the type is open. -/
def inferLiteral (profile : Profile) (value : Literal) : Analyze Inferred := do
  match value with
  | .string _ => pure (.ofVar (← freshExact value.text profile.textType) true)
  | .int _ => pure (.ofVar (← freshExact value.text profile.integerLiteralType) true)
  | .float _ => pure (.ofVar (← freshExact value.text profile.floatLiteralType) true)
  | .bool _ => pure (.ofVar (← fresh value.text .unknown) true)
  | .null => pure (.ofVar (← fresh value.text .unknown) false)

/-- A reference to a column. -/
def inferColumn (scope : Scope) (c : ColumnRef) : Analyze Inferred := do
  let column ← resolve scope c
  let var ← reference column
  pure (.ofColumn var column)

/-- A result of arithmetic: as wide as its operands. -/
def inferArithmetic (label : String) (left right : Inferred) : Analyze Inferred := do
  let var ← fresh label .number
  demand (.widest label (some .sum) left.var right.var)
  demand (.widest label (some .sum) var left.var)
  demand (.widest label (some .sum) var right.var)
  pure (.ofVar var (left.notNull && right.notNull))

/-- A comparison of two operands. -/
def inferCompare (setting : Setting) (label : String) (left right : Inferred) :
    Analyze Inferred := do
  demand (.strict label (.var left.var) (.var right.var))
  forceNotNull left
  forceNotNull right
  predicate setting label

/-- A BETWEEN. -/
def inferBetween (setting : Setting) (label : String) (value low high : Inferred) :
    Analyze Inferred := do
  demand (.strict label (.var value.var) (.var low.var))
  demand (.strict label (.var value.var) (.var high.var))
  forceNotNull value
  forceNotNull low
  forceNotNull high
  predicate setting label

/-- Makes every placeholder of a list not null. -/
def forceAllNotNull : List Inferred → Analyze Unit
  | [] => pure ()
  | e :: rest => do
    forceNotNull e
    forceAllNotNull rest

/-- The name of a placeholder that is the only item of a list. -/
def soleParameter? : List Expr → Option (Option String)
  | [.parameter name] => some name
  | _ => none

/-- An IN with a list of items. -/
def inferInList (setting : Setting) (label : String) (value : Inferred) (items : List Inferred) :
    Analyze Inferred := do
  let vars := items.map (·.var)
  demand { Constraint.strict label (.var value.var) (.ofVars vars) with list := vars.any (·.list) }
  forceAllNotNull items
  predicate setting label

/-- The first output column of a query; a query without columns has no value. -/
def firstColumn (text : String) (query : QueryResult) : Analyze OutputColumn :=
  match query.columns with
  | column :: _ => pure column
  | [] => throw (.unsupported text)

/-- An IN with the first column of a query. -/
def inferInQuery (setting : Setting) (label : String) (value : Inferred) (column : OutputColumn) :
    Analyze Inferred := do
  demand (.strict label (.var value.var) (.ofVars [column.var]))
  predicate setting label

/-- A LIKE. -/
def inferLike (setting : Setting) (label : String) (value pattern : Inferred) :
    Analyze Inferred := do
  let text ← freshExact pattern.var.label setting.profile.textType
  demand (.bestEffort label text pattern.var)
  demand (.bestEffort label value.var pattern.var)
  forceNotNull value
  forceNotNull pattern
  predicate setting label

/-- The condition of a branch of a CASE: equal to the operand if there is one, or else true. -/
def inferWhen (setting : Setting) (label : String) (operand : Option Inferred)
    (condition : Inferred) : Analyze Unit := do
  match operand with
  | some operand =>
    demand (.strict label (.var operand.var) (.var condition.var))
    forceNotNull condition
  | none =>
    let truth ← freshExact label setting.profile.predicateType
    demand (.bestEffort label condition.var truth)

/-! ## Forms of queries -/

/-- A column that a star stands for. -/
def inferStarColumn (column : SourceColumn) : Analyze OutputColumn := do
  let var ← reference column
  pure (.ofInferred column.name (.ofColumn var column))

/-- The columns that a star stands for. -/
def inferStar : Level → Analyze (List OutputColumn)
  | [] => pure []
  | column :: rest => do
    let output ← inferStarColumn column
    let outputs ← inferStar rest
    pure (output :: outputs)

/-- A row count in LIMIT or OFFSET. -/
def inferBound (setting : Setting) (label : String) (bound : Inferred) : Analyze Unit := do
  let integer ← freshExact label setting.profile.limitType
  demand (.strict label (.var integer) (.var bound.var))
  forceNotNull bound

/-- Lifts a result that needs no run. -/
def lift {α : Type} (result : Except AnalysisError α) : Analyze α :=
  match result with
  | .ok value => pure value
  | .error e => throw e

/-! ## The walk -/

mutual

/-- Analyses an expression. -/
def inferExpr (setting : Setting) (scope : Scope) : Expr → Analyze Inferred
  | .literal value => inferLiteral setting.profile value
  | .column c => inferColumn scope c
  | .parameter name => addPlaceholder name false
  | .paren inner => inferExpr setting scope inner
  | .arithmetic op left right => do
    let l ← inferExpr setting scope left
    let r ← inferExpr setting scope right
    inferArithmetic (Expr.arithmetic op left right).text l r
  | .compare op left right => do
    let l ← inferExpr setting scope left
    let r ← inferExpr setting scope right
    inferCompare setting (Expr.compare op left right).text l r
  | .between negated value low high => do
    let v ← inferExpr setting scope value
    let l ← inferExpr setting scope low
    let h ← inferExpr setting scope high
    inferBetween setting (Expr.between negated value low high).text v l h
  | .inList negated value items => do
    let v ← inferExpr setting scope value
    forceNotNull v
    let inferred ← match soleParameter? items with
      | some name => do
        let list ← addPlaceholder name true
        pure [list]
      | none => inferAll setting scope items
    inferInList setting (Expr.inList negated value items).text v inferred
  | .inQuery negated value query => do
    let v ← inferExpr setting scope value
    forceNotNull v
    let result ← inferQuery setting scope.levels query
    let column ← firstColumn query.text result
    inferInQuery setting (Expr.inQuery negated value query).text v column
  | .like negated value pattern => do
    let v ← inferExpr setting scope value
    let p ← inferExpr setting scope pattern
    inferLike setting (Expr.like negated value pattern).text v p
  | .isNull negated value => do
    let _ ← inferExpr setting scope value
    predicate setting (Expr.isNull negated value).text
  | .and left right => do
    let _ ← inferExpr setting scope left
    let _ ← inferExpr setting scope right
    predicate setting (Expr.and left right).text
  | .or left right => do
    let _ ← inferExpr setting scope left
    let _ ← inferExpr setting scope right
    predicate setting (Expr.or left right).text
  | .not operand => do
    let _ ← inferExpr setting scope operand
    predicate setting (Expr.not operand).text
  | .call function distinct arguments => do
    let inferred ← inferArguments setting scope arguments
    inferCall setting.profile function (Expr.call function distinct arguments).text inferred
  | .case operand branches otherwise => do
    let inferred ← inferSome setting scope operand
    let result ← fresh (Expr.case operand branches otherwise).text .unknown
    let thenNotNull ← inferBranches setting scope inferred result branches
    let elseNotNull ← inferElse setting scope result otherwise
    pure (.ofVar result (thenNotNull && elseNotNull))
  | .scalar query => do
    let result ← inferQuery setting scope.levels query
    let column ← firstColumn query.text result
    pure (.ofVar column.var column.notNull)
  | .hasRows query => do
    let _ ← inferQuery setting scope.levels query
    predicate setting (Expr.hasRows query).text
  | .star => throw (.unsupported Expr.star.text)

/-- Analyses a list of expressions. -/
def inferAll (setting : Setting) (scope : Scope) : List Expr → Analyze (List Inferred)
  | [] => pure []
  | e :: rest => do
    let first ← inferExpr setting scope e
    let others ← inferAll setting scope rest
    pure (first :: others)

/-- Analyses the arguments of a call; a star is none. -/
def inferArguments (setting : Setting) (scope : Scope) : List Expr → Analyze (List Inferred)
  | [] => pure []
  | e :: rest =>
    if e.isStar then inferArguments setting scope rest
    else do
      let first ← inferExpr setting scope e
      let others ← inferArguments setting scope rest
      pure (first :: others)

/-- Analyses an expression that may be missing. -/
def inferSome (setting : Setting) (scope : Scope) : Option Expr → Analyze (Option Inferred)
  | none => pure none
  | some e => do
    let inferred ← inferExpr setting scope e
    pure (some inferred)

/-- Analyses the branches of a CASE; whether no result can be null. -/
def inferBranches (setting : Setting) (scope : Scope) (operand : Option Inferred)
    (result : TypeVar) : List WhenThen → Analyze Bool
  | [] => pure true
  | ⟨condition, value⟩ :: rest => do
    let c ← inferExpr setting scope condition
    inferWhen setting condition.text operand c
    let v ← inferExpr setting scope value
    demand (.widest value.text none result v.var)
    let others ← inferBranches setting scope operand result rest
    pure (v.notNull && others)

/-- Analyses the ELSE of a CASE; without one the result can be null. -/
def inferElse (setting : Setting) (scope : Scope) (result : TypeVar) : Option Expr → Analyze Bool
  | none => pure false
  | some e => do
    let inferred ← inferExpr setting scope e
    demand (.widest e.text none result inferred.var)
    pure inferred.notNull

/-- Analyses a query that sees the given levels around it. -/
def inferQuery (setting : Setting) (outer : List Level) : Select → Analyze QueryResult
  | ⟨ctes, branches, order, limit⟩ => keepingCtes do
    inferCtes setting outer ctes
    let results ← inferUnion setting outer branches
    match results with
    | [] => throw (.unsupported (Select.mk ctes branches order limit).text)
    | first :: others => do
      let columns ← lift (unionColumns first.columns others)
      inferOrder setting ⟨levelOf "" columns, first.visible :: outer⟩ order
      inferLimit setting ⟨first.visible, outer⟩ limit
      pure (.of first columns branches order limit)

/-- Analyses common tables and declares each for what follows it. -/
def inferCtes (setting : Setting) (outer : List Level) : List Cte → Analyze Unit
  | [] => pure ()
  | ⟨name, query⟩ :: rest => do
    let result ← inferQuery setting outer query
    declareCte name (levelOf name result.columns)
    inferCtes setting outer rest

/-- Analyses the branches of a query. -/
def inferUnion (setting : Setting) (outer : List Level) : List Branch → Analyze (List BranchResult)
  | [] => pure []
  | branch :: rest => do
    let first ← inferBranch setting outer branch
    let others ← inferUnion setting outer rest
    pure (first :: others)

/-- Analyses a branch. GROUP BY and HAVING see its output columns around those of its FROM
clause. -/
def inferBranch (setting : Setting) (outer : List Level) : Branch → Analyze BranchResult
  | ⟨_, items, sources, joins, criteria, group, having⟩ => do
    let start := (← get).placeholders.length
    let listed ← inferSources setting .empty sources
    let joined ← inferJoins setting outer listed (Sources.lastName sources) joins
    let later ← cutPlaceholders start
    let scope : Scope := ⟨joined.columns, outer⟩
    let columns ← inferItems setting scope items
    appendPlaceholders later
    let _ ← inferSome setting scope criteria
    let grouped : Scope := ⟨joined.columns, levelOf "" columns :: outer⟩
    let _ ← inferAll setting grouped group
    let _ ← inferSome setting grouped having
    pure (.of joined scope sources joins criteria group columns)

/-- Analyses the items of a projection. -/
def inferItems (setting : Setting) (scope : Scope) : List Item → Analyze (List OutputColumn)
  | [] => pure []
  | item :: rest => do
    let first ← inferItem setting scope item
    let others ← inferItems setting scope rest
    pure (first ++ others)

/-- Analyses an item of a projection. -/
def inferItem (setting : Setting) (scope : Scope) : Item → Analyze (List OutputColumn)
  | .star => inferStar scope.columns
  | .tableStar table =>
    match scope.columns.ofTable table with
    | [] => throw (.unknownTable table)
    | columns => inferStar columns
  | .expr value aliasName => do
    let inferred ← inferExpr setting scope value
    pure [.ofInferred (outputName value aliasName) inferred]

/-- Analyses the sources after FROM. -/
def inferSources (setting : Setting) (done : Sources) : List Source → Analyze Sources
  | [] => pure done
  | source :: rest => do
    let columns ← inferSource setting source
    inferSources setting (done.add source columns) rest

/-- The columns of a source. A derived table sees no levels around it. -/
def inferSource (setting : Setting) : Source → Analyze Level
  | .table name aliasName => tableColumns setting.schema name aliasName
  | .derived query aliasName => do
    let result ← inferQuery setting [] query
    pure (levelOf aliasName result.columns)

/-- Analyses joins behind the source visible as `previous`. -/
def inferJoins (setting : Setting) (outer : List Level) (done : Sources) (previous : String) :
    List Join → Analyze Sources
  | [] => pure done
  | ⟨kind, source, condition⟩ :: rest => do
    let columns ← inferSource setting source
    inferCondition setting ⟨done.columns ++ columns, outer⟩ condition
    let next := done.join outer previous kind source condition columns
    inferJoins setting outer next source.visibleName rest

/-- Analyses the condition of a join. -/
def inferCondition (setting : Setting) (scope : Scope) : JoinCondition → Analyze Unit
  | .predicate e => do
    let _ ← inferExpr setting scope e
    pure ()
  | .shared _ => pure ()
  | .unconditional => pure ()

/-- Analyses an ORDER BY; a placeholder as a term stands for a column and is passed over. -/
def inferOrder (setting : Setting) (scope : Scope) : List OrderTerm → Analyze Unit
  | [] => pure ()
  | ⟨value, _⟩ :: rest =>
    if value.isParameter then inferOrder setting scope rest
    else do
      let _ ← inferExpr setting scope value
      inferOrder setting scope rest

/-- Analyses LIMIT and OFFSET. -/
def inferLimit (setting : Setting) (scope : Scope) : Option Limit → Analyze Unit
  | none => pure ()
  | some ⟨count, offset⟩ => do
    let c ← inferExpr setting scope count
    inferBound setting count.text c
    inferOffset setting scope offset

/-- Analyses an OFFSET. -/
def inferOffset (setting : Setting) (scope : Scope) : Option Expr → Analyze Unit
  | none => pure ()
  | some offset => do
    let o ← inferExpr setting scope offset
    inferBound setting offset.text o

end

/-- Analyses the FROM clause of a branch. -/
def inferFrom (setting : Setting) (outer : List Level) (branch : Branch) : Analyze Sources := do
  let listed ← inferSources setting .empty branch.sources
  inferJoins setting outer listed (Sources.lastName branch.sources) branch.joins

end QuerySignature
