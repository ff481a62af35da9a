import QuerySignature.Relation.Basic
import QuerySignature.Scope.Resolve

namespace QuerySignature

/-! # FROM clauses

What the sources of a FROM clause make visible, and how each hangs off those before it. A source
after a comma hangs off the first one. A joined source hangs off the table that its condition
links it to, or off the source before it; the link gives one row when it equates a unique column
of the joined source.
-/

/-- The visible columns and the relations of a FROM clause. -/
structure Sources where
  columns : Level
  relations : List Relation
  deriving Repr, Inhabited

/-- The parent that a condition links a joined source to, if any, and how many rows it gives. -/
structure Link where
  parent : Option String
  cardinality : Cardinality
  deriving DecidableEq, Repr, Inhabited

/-- The two columns of an equation between the joined table and another one, the joined one
first. -/
def Scope.joinedPair? (scope : Scope) (joined : String) (sides : Expr × Expr) :
    Option (SourceColumn × SourceColumn) :=
  match scope.columnOf? sides.1, scope.columnOf? sides.2 with
  | some left, some right =>
    match left.isOf joined, right.isOf joined with
    | true, false => some (left, right)
    | false, true => some (right, left)
    | _, _ => none
  | _, _ => none

/-- The link that an ON condition makes. -/
def Link.ofPredicate (scope : Scope) (joined : String) (predicate : Expr) : Link :=
  let pairs := predicate.equalities.filterMap (scope.joinedPair? joined)
  let equated := pairs.head?.map (·.2)
  let mentioned := (predicate.columns.filterMap scope.lookup?).find? fun column =>
    !column.isOf joined
  { parent := (equated.or mentioned).map SourceColumn.visibleTable
    cardinality := .ofUnique (pairs.any fun pair => pair.1.key.isUnique) }

/-- Whether a column is among the shared columns of a join. -/
def SourceColumn.isShared (names : List String) (column : SourceColumn) : Bool :=
  names.any fun name => sameName name column.name

/-- The link that a USING list makes. -/
def Link.ofShared (names : List String) (earlier joined : Level) : Link where
  parent := (earlier.find? (·.isShared names)).map SourceColumn.visibleTable
  cardinality := .ofUnique (joined.any fun column => column.isShared names && column.key.isUnique)

/-- The link that the condition of a join makes. -/
def JoinCondition.link (condition : JoinCondition) (outer : List Level) (joined : String)
    (earlier columns : Level) : Link :=
  match condition with
  | .predicate e => .ofPredicate ⟨earlier ++ columns, outer⟩ joined e
  | .shared names => .ofShared names earlier columns
  | .unconditional => ⟨none, .many⟩

/-- The columns that a joined source adds: those that a USING list names are seen already. -/
def JoinCondition.added (condition : JoinCondition) (columns : Level) : Level :=
  match condition with
  | .shared names => columns.filter fun column => !column.isShared names
  | _ => columns

namespace JoinKind

/-- The earlier columns as a join leaves them. -/
def earlier (kind : JoinKind) (columns : Level) : Level :=
  match kind with
  | right | full => columns.map SourceColumn.nullable
  | _ => columns

/-- The joined columns as a join leaves them. -/
def joined (kind : JoinKind) (columns : Level) : Level :=
  match kind with
  | left | full => columns.map SourceColumn.nullable
  | _ => columns

end JoinKind

namespace Sources

/-- The clause without sources. -/
def empty : Sources := ⟨[], []⟩

/-- Adds a source of the list after FROM. -/
def add (sources : Sources) (source : Source) (columns : Level) : Sources :=
  let relation := (Relation.ofSource? source columns).map fun relation =>
    match sources.relations.head? with
    | some root => { relation with parent := root.key, cardinality := .many }
    | none => relation
  ⟨sources.columns ++ columns, sources.relations ++ relation.toList⟩

/-- Adds a joined source; `previous` is the visible name of the source before it. -/
def join (sources : Sources) (outer : List Level) (previous : String) (kind : JoinKind)
    (source : Source) (condition : JoinCondition) (columns : Level) : Sources :=
  let link := condition.link outer source.visibleName sources.columns columns
  let relation := (Relation.ofSource? source columns).map fun relation =>
    { relation with parent := link.parent.getD previous, cardinality := link.cardinality }
  ⟨kind.earlier sources.columns ++ kind.joined (condition.added columns),
    sources.relations ++ relation.toList⟩

/-- The visible name of the last source of a list, empty when there is none. -/
def lastName (sources : List Source) : String :=
  match sources.getLast? with
  | some source => source.visibleName
  | none => ""

end Sources

end QuerySignature
