import QuerySignature.Text.Segments

namespace QuerySignature

/-! # Statements

The tree of a SQL statement, as a parser hands it over. Expressions and queries contain each
other: a query may stand inside an expression as a scalar, after IN or under EXISTS, and an
expression wherever a query projects, joins, filters, groups, orders or limits.
-/

/-- A constant. -/
inductive Literal where
  | string (value : String)
  | int (value : Int)
  | float (value : Float)
  | bool (value : Bool)
  | null

/-- The literal of a double; there is none that is not a number. -/
def Literal.ofFloat? (value : Float) : Option Literal :=
  if value.isNaN then none else some (.float value)

/-- A reference to a column, with the table it is looked for in, if the text gives one. -/
structure ColumnRef where
  table : Option String
  name : String
  deriving DecidableEq, Repr, Inhabited

namespace ColumnRef

/-- The table of a reference, empty when none is given. -/
def qualifier (c : ColumnRef) : String := c.table.getD ""

/-- Reads `name`, `table.name` or `schema.table.name`. -/
def ofText (text : String) : ColumnRef :=
  match qualified? text with
  | some (before, name) => ⟨some (lastSegment before), name⟩
  | none => ⟨none, text⟩

end ColumnRef

/-- An operator of arithmetic. -/
inductive ArithmeticOp where
  | add
  | sub
  | mul
  | div
  | mod
  deriving DecidableEq, Repr, Inhabited

/-- An operator of comparison. -/
inductive CompareOp where
  | eq
  | ne
  | lt
  | le
  | gt
  | ge
  deriving DecidableEq, Repr, Inhabited

/-- A way to join a table. -/
inductive JoinKind where
  | inner
  | left
  | right
  | full
  | cross
  deriving DecidableEq, Repr, Inhabited

mutual

/-- An expression. A flag `negated` marks the form with NOT. -/
inductive Expr where
  | literal (value : Literal)
  | column (reference : ColumnRef)
  /-- A placeholder, written `?` or with a name. -/
  | parameter (name : Option String)
  | arithmetic (op : ArithmeticOp) (left right : Expr)
  | compare (op : CompareOp) (left right : Expr)
  | between (negated : Bool) (value low high : Expr)
  | inList (negated : Bool) (value : Expr) (items : List Expr)
  | inQuery (negated : Bool) (value : Expr) (query : Select)
  | like (negated : Bool) (value pattern : Expr)
  /-- IS NULL, or IS NOT NULL when negated. -/
  | isNull (negated : Bool) (value : Expr)
  | and (left right : Expr)
  | or (left right : Expr)
  | not (operand : Expr)
  | call (function : String) (distinct : Bool) (arguments : List Expr)
  | case (operand : Option Expr) (branches : List WhenThen) (otherwise : Option Expr)
  /-- A query that stands for its one value. -/
  | scalar (query : Select)
  /-- EXISTS. -/
  | hasRows (query : Select)
  | paren (inner : Expr)
  /-- The star in `COUNT(*)`. -/
  | star

/-- A branch of a CASE. -/
structure WhenThen where
  condition : Expr
  result : Expr

/-- A query: one or more branches joined by UNION, with the common tables they may read. -/
structure Select where
  ctes : List Cte
  branches : List Branch
  order : List OrderTerm
  limit : Option Limit

/-- A common table. -/
structure Cte where
  name : String
  query : Select

/-- One block from SELECT to HAVING. -/
structure Branch where
  distinct : Bool
  items : List Item
  sources : List Source
  joins : List Join
  criteria : Option Expr
  group : List Expr
  having : Option Expr

/-- An item of a projection. -/
inductive Item where
  | star
  | tableStar (table : String)
  | expr (value : Expr) (aliasName : Option String)

/-- What a FROM clause reads. -/
inductive Source where
  | table (name : String) (aliasName : Option String)
  | derived (query : Select) (aliasName : String)

/-- A joined source. -/
structure Join where
  kind : JoinKind
  source : Source
  condition : JoinCondition

/-- The condition of a join. -/
inductive JoinCondition where
  /-- ON. -/
  | predicate (condition : Expr)
  /-- USING, with the columns that both sides share. -/
  | shared (columns : List String)
  | unconditional

/-- A term of ORDER BY. -/
structure OrderTerm where
  value : Expr
  descending : Bool

/-- LIMIT and OFFSET. -/
structure Limit where
  count : Expr
  offset : Option Expr

end

instance : Inhabited Expr := ⟨.star⟩

instance : Inhabited Select := ⟨⟨[], [], [], none⟩⟩

instance : Inhabited Branch := ⟨⟨false, [], [], [], none, [], none⟩⟩

instance : Inhabited Item := ⟨.star⟩

instance : Inhabited Source := ⟨.table "" none⟩

instance : Inhabited Join := ⟨⟨.inner, default, .unconditional⟩⟩

/-- What an INSERT writes. -/
inductive InsertRows where
  | values (rows : List (List Expr))
  | query (query : Select)

/-- One column set by an UPDATE. -/
structure Assignment where
  column : String
  value : Expr

/-- A statement. -/
inductive Statement where
  | select (query : Select)
  | insert (table : String) (columns : List String) (rows : InsertRows)
  | update (table : String) (assignments : List Assignment) (criteria : Option Expr)
  | delete (table : String) (criteria : Option Expr)

/-! ## Parts of expressions -/

namespace Expr

/-- An expression without the parentheses around it. -/
def bare : Expr → Expr
  | .paren inner => inner.bare
  | e => e

/-- Whether an expression is a placeholder, through parentheses. -/
def isParameter (e : Expr) : Bool :=
  match e.bare with
  | .parameter _ => true
  | _ => false

/-- The column that an expression is, through parentheses. -/
def column? (e : Expr) : Option ColumnRef :=
  match e.bare with
  | .column c => some c
  | _ => none

/-- Whether an expression is a star without parentheses. -/
def isStar : Expr → Bool
  | .star => true
  | _ => false

/-- The operands of the ANDs at the top of an expression. -/
def conjuncts : Expr → List Expr
  | .and left right => left.conjuncts ++ right.conjuncts
  | e => [e]

/-- The pairs of expressions that the ANDs at the top of an expression equate, through
parentheses. -/
def equalities : Expr → List (Expr × Expr)
  | .paren inner => inner.equalities
  | .and left right => left.equalities ++ right.equalities
  | .compare .eq left right => [(left, right)]
  | _ => []

mutual

/-- The columns that an expression refers to outside of queries inside it, in order. -/
def columns : Expr → List ColumnRef
  | .column c => [c]
  | .literal _ | .parameter _ | .star | .scalar _ | .hasRows _ => []
  | .arithmetic _ left right | .compare _ left right => left.columns ++ right.columns
  | .and left right | .or left right => left.columns ++ right.columns
  | .between _ value low high => value.columns ++ low.columns ++ high.columns
  | .inList _ value items => value.columns ++ columnsOfAll items
  | .inQuery _ value _ => value.columns
  | .isNull _ value | .not value | .paren value => value.columns
  | .like _ value pattern => value.columns ++ pattern.columns
  | .call _ _ arguments => columnsOfAll arguments
  | .case operand branches otherwise =>
    columnsOfSome operand ++ columnsOfBranches branches ++ columnsOfSome otherwise

/-- The columns of a list of expressions. -/
def columnsOfAll : List Expr → List ColumnRef
  | [] => []
  | e :: rest => e.columns ++ columnsOfAll rest

/-- The columns of an expression that may be missing. -/
def columnsOfSome : Option Expr → List ColumnRef
  | none => []
  | some e => e.columns

/-- The columns of the branches of a CASE. -/
def columnsOfBranches : List WhenThen → List ColumnRef
  | [] => []
  | ⟨condition, result⟩ :: rest => condition.columns ++ result.columns ++ columnsOfBranches rest

end

end Expr

/-! ## Parts of queries -/

namespace Source

/-- The name under which a source is written: its alias, or its name as it stands. -/
def label : Source → String
  | .table name aliasName => aliasName.getD name
  | .derived _ aliasName => aliasName

/-- The name under which columns of a source are seen: its alias, or the last segment of its
name. -/
def visibleName : Source → String
  | .table name none => lastSegment name
  | source => source.label

end Source

/-- Whether a limit is the literal `1`, through parentheses. -/
def Limit.isOne (limit : Limit) : Bool :=
  match limit.count.bare with
  | .literal (.int n) => n == 1
  | _ => false

/-- Whether an item of a query's order is a placeholder. -/
def OrderTerm.isParameter (term : OrderTerm) : Bool := term.value.isParameter

end QuerySignature
