import QuerySignature.Analysis.Write

namespace QuerySignature

/-! # What a text asks of types

Two things in a text matter for whether a placeholder is numeric: that it is an operand of arithmetic,
and that a CASE, a COALESCE or an IFNULL chooses among expressions. Both are listed here in the order
of the text.

- `Statement.operands`: the placeholders of a statement, each with whether it is an operand of
  arithmetic.
- `Statement.choices`: the texts by which choices ask for widenings.
- `Expr.typeUses_of_isParameter`: a bare placeholder alone is no operand.
-/

/-- A place of a text that matters for types. -/
inductive TypeUse where
  /-- A placeholder, and whether it is an operand of arithmetic. -/
  | placeholder (operand : Bool)
  /-- What a choice widens its result for: a result of a CASE, or a whole call, by its text. -/
  | choice (label : String)
  deriving DecidableEq, Repr

/-- The placeholders among some uses. -/
def operandsIn (uses : List TypeUse) : List Bool :=
  uses.filterMap fun use => match use with
    | .placeholder operand => some operand
    | .choice _ => none

/-- The choices among some uses. -/
def choicesIn (uses : List TypeUse) : List String :=
  uses.filterMap fun use => match use with
    | .placeholder _ => none
    | .choice label => some label

@[simp] theorem operandsIn_append (first second : List TypeUse) :
    operandsIn (first ++ second) = operandsIn first ++ operandsIn second :=
  List.filterMap_append

@[simp] theorem choicesIn_append (first second : List TypeUse) :
    choicesIn (first ++ second) = choicesIn first ++ choicesIn second :=
  List.filterMap_append

/-- Whether a function gives one of its arguments. -/
def SqlFunction.isChoice : SqlFunction → Bool
  | coalesce | ifNull => true
  | _ => false

/-- What a call of a function is as a choice. -/
def callUses (function label : String) : List TypeUse :=
  if (SqlFunction.ofName? function).any SqlFunction.isChoice then [.choice label] else []

mutual

/-- The uses of types in an expression. -/
def Expr.typeUses : Expr → List TypeUse
  | .literal _ | .column _ | .star => []
  | .parameter _ => [.placeholder false]
  | .paren inner => inner.typeUses
  | .arithmetic _ left right =>
    (if left.isParameter then [.placeholder true] else left.typeUses) ++
      (if right.isParameter then [.placeholder true] else right.typeUses)
  | .compare _ left right | .and left right | .or left right | .like _ left right =>
    left.typeUses ++ right.typeUses
  | .between _ value low high => value.typeUses ++ low.typeUses ++ high.typeUses
  | .inList _ value items => value.typeUses ++ usesOfAll items
  | .inQuery _ value query => value.typeUses ++ query.typeUses
  | .isNull _ value | .not value => value.typeUses
  | .call function distinct arguments =>
    usesOfAll arguments ++ callUses function (Expr.call function distinct arguments).text
  | .case operand branches otherwise =>
    usesOfSome operand ++ usesOfBranches branches ++ usesOfElse otherwise
  | .scalar query | .hasRows query => query.typeUses

/-- The uses of types in some expressions. -/
def usesOfAll : List Expr → List TypeUse
  | [] => []
  | e :: rest => e.typeUses ++ usesOfAll rest

/-- The uses of types in an expression that may be missing. -/
def usesOfSome : Option Expr → List TypeUse
  | none => []
  | some e => e.typeUses

/-- The uses of types in the branches of a CASE. Each result is a choice. -/
def usesOfBranches : List WhenThen → List TypeUse
  | [] => []
  | ⟨condition, result⟩ :: rest =>
    condition.typeUses ++ (result.typeUses ++ .choice result.text :: usesOfBranches rest)

/-- The uses of types in the ELSE of a CASE, which is a choice. -/
def usesOfElse : Option Expr → List TypeUse
  | none => []
  | some e => e.typeUses ++ [.choice e.text]

/-- The uses of types in a query. -/
def Select.typeUses : Select → List TypeUse
  | ⟨ctes, branches, order, limit⟩ =>
    usesOfCtes ctes ++ usesOfUnion branches ++ usesOfOrder order ++ usesOfLimit limit

/-- The uses of types in common tables. -/
def usesOfCtes : List Cte → List TypeUse
  | [] => []
  | ⟨_, query⟩ :: rest => query.typeUses ++ usesOfCtes rest

/-- The uses of types in the branches of a query. -/
def usesOfUnion : List Branch → List TypeUse
  | [] => []
  | branch :: rest => branch.typeUses ++ usesOfUnion rest

/-- The uses of types in a branch. -/
def Branch.typeUses : Branch → List TypeUse
  | ⟨_, items, sources, joins, criteria, group, having⟩ =>
    usesOfItems items ++ (usesOfSources sources ++ usesOfJoins joins) ++ usesOfSome criteria ++
      usesOfAll group ++ usesOfSome having

/-- The uses of types in the items of a projection. -/
def usesOfItems : List Item → List TypeUse
  | [] => []
  | item :: rest => item.typeUses ++ usesOfItems rest

/-- The uses of types in an item of a projection. -/
def Item.typeUses : Item → List TypeUse
  | .star | .tableStar _ => []
  | .expr value _ => value.typeUses

/-- The uses of types in listed sources. -/
def usesOfSources : List Source → List TypeUse
  | [] => []
  | source :: rest => source.typeUses ++ usesOfSources rest

/-- The uses of types in a source. -/
def Source.typeUses : Source → List TypeUse
  | .table _ _ => []
  | .derived query _ => query.typeUses

/-- The uses of types in joins. -/
def usesOfJoins : List Join → List TypeUse
  | [] => []
  | ⟨_, source, condition⟩ :: rest =>
    source.typeUses ++ (condition.typeUses ++ usesOfJoins rest)

/-- The uses of types in the condition of a join. -/
def JoinCondition.typeUses : JoinCondition → List TypeUse
  | .predicate e => e.typeUses
  | .shared _ | .unconditional => []

/-- The uses of types in an ORDER BY; as a whole term a placeholder stands for a column. -/
def usesOfOrder : List OrderTerm → List TypeUse
  | [] => []
  | ⟨value, _⟩ :: rest => (if value.isParameter then [] else value.typeUses) ++ usesOfOrder rest

/-- The uses of types in LIMIT and OFFSET. -/
def usesOfLimit : Option Limit → List TypeUse
  | none => []
  | some ⟨count, offset⟩ => count.typeUses ++ usesOfSome offset

end

namespace Statement

/-- The uses of types in a statement. -/
def typeUses : Statement → List TypeUse
  | select query => query.typeUses
  | insert _ _ (.values rows) => rows.flatMap usesOfAll
  | insert _ _ (.query query) => query.typeUses
  | update _ assignments criteria =>
    assignments.flatMap (fun a => a.value.typeUses) ++ usesOfSome criteria
  | delete _ criteria => usesOfSome criteria

/-- The placeholders of a statement in the order of its text, each with whether it is, through
parentheses, an operand of arithmetic. -/
def operands (s : Statement) : List Bool := operandsIn s.typeUses

/-- What the choices of a statement widen their results for. -/
def choices (s : Statement) : List String := choicesIn s.typeUses

end Statement

theorem Expr.typeUses_of_isParameter : ∀ {e : Expr}, e.isParameter = true →
    e.typeUses = [.placeholder false]
  | .paren inner, h => by
    rw [Expr.typeUses]
    exact typeUses_of_isParameter (e := inner) h
  | .parameter _, _ => by rw [Expr.typeUses]

end QuerySignature
