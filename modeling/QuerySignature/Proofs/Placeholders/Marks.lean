import QuerySignature.Proofs.Placeholders.Pieces

namespace QuerySignature

/-! # Where a placeholder may not be null

Whether a placeholder may be null is said by the place in which it stands. It may not as an operand of
a comparison, of BETWEEN, of IN or of LIKE, as the condition of a branch of a CASE that has an operand,
as the date of a function on dates, and in LIMIT and OFFSET. As a value that is written it is as
nullable as the column that it goes to. Parentheses around it make no difference; anywhere else, and
inside of any other expression, it may be null.

- `Statement.marks`: the placeholders of a statement, in the order of its text, each with what its
  place says.
- `Expr.marks_of_isParameter`, `Expr.marks_of_not_isParameter`: the place of an expression matters for
  a bare placeholder alone.
-/

/-- A placeholder of a text, and whether its place says that it is not null. -/
structure Mark where
  entry : Entry
  notNull : Bool
  deriving DecidableEq, Repr

/-- The place of the date among the arguments of a function on dates. -/
def datePlace? (function : String) : Option Nat :=
  match SqlFunction.ofName? function with
  | some .date | some .time | some .dateTime => some 0
  | some .strftime => some 1
  | _ => none

mutual

/-- The placeholders of an expression; `asked` says whether the expression stands where a placeholder
is not null. -/
def Expr.marks (asked : Bool) : Expr → List Mark
  | .literal _ | .column _ | .star => []
  | .parameter name => [⟨⟨name, false⟩, asked⟩]
  | .paren inner => inner.marks asked
  | .arithmetic _ left right | .and left right | .or left right =>
    left.marks false ++ right.marks false
  | .compare _ left right | .like _ left right => left.marks true ++ right.marks true
  | .between _ value low high => value.marks true ++ low.marks true ++ high.marks true
  | .inList _ value items =>
    value.marks true ++
      match soleParameter? items with
      | some name => [⟨⟨name, true⟩, true⟩]
      | none => marksOfAll (fun _ => true) items
  | .inQuery _ value query => value.marks true ++ query.marks
  | .isNull _ value | .not value => value.marks false
  | .call function _ arguments => marksOfAll (fun place => datePlace? function == some place) arguments
  | .case operand branches otherwise =>
    marksOfSome operand ++ marksOfBranches operand.isSome branches ++ marksOfSome otherwise
  | .scalar query | .hasRows query => query.marks

/-- The placeholders of some expressions, of which those at the asked places stand where a placeholder
is not null. A star takes no place. -/
def marksOfAll (asked : Nat → Bool) : List Expr → List Mark
  | [] => []
  | e :: rest =>
    if e.isStar then marksOfAll asked rest
    else e.marks (asked 0) ++ marksOfAll (fun place => asked (place + 1)) rest

/-- The placeholders of an expression that may be missing. -/
def marksOfSome : Option Expr → List Mark
  | none => []
  | some e => e.marks false

/-- The placeholders of the branches of a CASE; `compared` says whether it has an operand. -/
def marksOfBranches (compared : Bool) : List WhenThen → List Mark
  | [] => []
  | ⟨condition, result⟩ :: rest =>
    condition.marks compared ++ result.marks false ++ marksOfBranches compared rest

/-- The placeholders of a query. -/
def Select.marks : Select → List Mark
  | ⟨ctes, branches, order, limit⟩ =>
    marksOfCtes ctes ++ marksOfUnion branches ++ marksOfOrder order ++ marksOfLimit limit

/-- The placeholders of common tables. -/
def marksOfCtes : List Cte → List Mark
  | [] => []
  | ⟨_, query⟩ :: rest => query.marks ++ marksOfCtes rest

/-- The placeholders of the branches of a query. -/
def marksOfUnion : List Branch → List Mark
  | [] => []
  | branch :: rest => branch.marks ++ marksOfUnion rest

/-- The placeholders of a branch. -/
def Branch.marks : Branch → List Mark
  | ⟨_, items, sources, joins, criteria, group, having⟩ =>
    marksOfItems items ++ marksOfSources sources ++ marksOfJoins joins ++ marksOfSome criteria ++
      marksOfAll (fun _ => false) group ++ marksOfSome having

/-- The placeholders of the items of a projection. -/
def marksOfItems : List Item → List Mark
  | [] => []
  | item :: rest => item.marks ++ marksOfItems rest

/-- The placeholders of an item of a projection. -/
def Item.marks : Item → List Mark
  | .star | .tableStar _ => []
  | .expr value _ => value.marks false

/-- The placeholders of listed sources. -/
def marksOfSources : List Source → List Mark
  | [] => []
  | source :: rest => source.marks ++ marksOfSources rest

/-- The placeholders of a source. -/
def Source.marks : Source → List Mark
  | .table _ _ => []
  | .derived query _ => query.marks

/-- The placeholders of joins. -/
def marksOfJoins : List Join → List Mark
  | [] => []
  | ⟨_, source, condition⟩ :: rest => source.marks ++ condition.marks ++ marksOfJoins rest

/-- The placeholders of the condition of a join. -/
def JoinCondition.marks : JoinCondition → List Mark
  | .predicate e => e.marks false
  | .shared _ | .unconditional => []

/-- The placeholders of an ORDER BY; as a whole term a placeholder stands for a column. -/
def marksOfOrder : List OrderTerm → List Mark
  | [] => []
  | ⟨value, _⟩ :: rest =>
    (if value.isParameter then [] else value.marks false) ++ marksOfOrder rest

/-- The placeholders of LIMIT and OFFSET. -/
def marksOfLimit : Option Limit → List Mark
  | none => []
  | some ⟨count, offset⟩ => count.marks true ++ marksOfOffset offset

/-- The placeholders of an OFFSET. -/
def marksOfOffset : Option Expr → List Mark
  | none => []
  | some offset => offset.marks true

end

/-! ## Statements -/

namespace Schema

/-- Whether the columns that an INSERT writes are declared NOT NULL: those it names, or all of the
table. -/
def insertedNotNull (schema : Schema) (table : String) (names : List String) : List Bool :=
  let records := (schema.columnsOf? (lastSegment table)).getD []
  if names.isEmpty then records.map (·.notNull)
  else names.map fun name =>
    (records.find? fun record => sameName record.column name).any (·.notNull)

/-- Whether the column that an UPDATE sets is declared NOT NULL. -/
def updatedNotNull (schema : Schema) (table column : String) : Bool :=
  let target := ColumnRef.ofText column
  let records := (schema.columnsOf? (lastSegment table)).getD []
  (records.find? fun record => sameName record.column target.name &&
    (target.qualifier.isEmpty || sameName record.table target.qualifier)).any (·.notNull)

end Schema

/-- The placeholders of a statement. A query behind INSERT is described as any query, though what it
projects is written. -/
def Statement.marks (schema : Schema) : Statement → List Mark
  | .select query => query.marks
  | .insert table columns (.values rows) =>
    let written := schema.insertedNotNull table columns
    rows.flatMap (marksOfAll fun place => written[place]?.getD false)
  | .insert _ _ (.query query) => query.marks
  | .update table assignments criteria =>
    assignments.flatMap (fun a => a.value.marks (schema.updatedNotNull table a.column)) ++
      marksOfSome criteria
  | .delete _ criteria => marksOfSome criteria

/-- Whether a statement writes what a query projects. -/
def Statement.writesQuery : Statement → Bool
  | .insert _ _ (.query _) => true
  | _ => false

/-! ## Bare placeholders -/

theorem Expr.marks_of_isParameter : ∀ {e : Expr}, e.isParameter = true →
    ∃ entry, ∀ asked, e.marks asked = [⟨entry, asked⟩]
  | .paren inner, h => by
    obtain ⟨entry, hmarks⟩ := marks_of_isParameter (e := inner) h
    exact ⟨entry, fun asked => by simpa [Expr.marks] using hmarks asked⟩
  | .parameter name, _ => ⟨⟨name, false⟩, fun asked => by simp [Expr.marks]⟩

theorem Expr.marks_of_not_isParameter : ∀ {e : Expr}, e.isParameter = false → ∀ asked,
    e.marks asked = e.marks false
  | .paren inner, h, asked => by
    simpa [Expr.marks] using marks_of_not_isParameter (e := inner) h asked
  | .literal _, _, _ | .column _, _, _ | .arithmetic .., _, _ | .compare .., _, _
  | .between .., _, _ | .inList .., _, _ | .inQuery .., _, _ | .like .., _, _ | .isNull .., _, _
  | .and .., _, _ | .or .., _, _ | .not _, _, _ | .call .., _, _ | .case .., _, _ | .scalar _, _, _
  | .hasRows _, _, _ | .star, _, _ => by simp [Expr.marks]

theorem Expr.length_marks (e : Expr) (asked : Bool) :
    (e.marks asked).length = (e.marks false).length := by
  cases h : e.isParameter with
  | true =>
    obtain ⟨entry, hmarks⟩ := marks_of_isParameter h
    rw [hmarks, hmarks]
    rfl
  | false => rw [marks_of_not_isParameter h]

end QuerySignature
