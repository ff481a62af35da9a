import QuerySignature.Decimal.Layout
import QuerySignature.Syntax.Basic

namespace QuerySignature

/-! # Statements as text

Every part of a statement prints as SQL. An operand is put in parentheses when it binds looser
than its place asks; the parentheses that the tree itself holds are always printed. The text of an
expression also serves as its name where it has no other.
-/

namespace ColumnRef

/-- A reference as text. -/
def text (c : ColumnRef) : String :=
  match c.table with
  | some table => table ++ "." ++ c.name
  | none => c.name

end ColumnRef

namespace ArithmeticOp

/-- The sign of an operator. -/
def text : ArithmeticOp → String
  | add => "+"
  | sub => "-"
  | mul => "*"
  | div => "/"
  | mod => "%"

/-- How tightly an operator binds. -/
def precedence : ArithmeticOp → Nat
  | add | sub => 5
  | mul | div | mod => 6

end ArithmeticOp

namespace CompareOp

/-- The sign of a comparison. -/
def text : CompareOp → String
  | eq => "="
  | ne => "<>"
  | lt => "<"
  | le => "<="
  | gt => ">"
  | ge => ">="

end CompareOp

namespace JoinKind

/-- The words of a join. -/
def text : JoinKind → String
  | inner => "INNER JOIN"
  | left => "LEFT JOIN"
  | right => "RIGHT JOIN"
  | full => "FULL JOIN"
  | cross => "CROSS JOIN"

end JoinKind

namespace Literal

/-- Doubles are written in full, and whole ones without a point. -/
def floatLayout : Layout := ⟨none, false⟩

/-- A text in single quotes, with each quote inside it doubled. -/
def quote (s : String) : String :=
  "'" ++ String.ofList (s.toList.flatMap fun c => if c = '\'' then ['\'', '\''] else [c]) ++ "'"

/-- A literal as text. -/
def text : Literal → String
  | .string s => quote s
  | .int n => toString n
  | .float x => floatLayout.text x
  | .bool b => if b then "TRUE" else "FALSE"
  | .null => "NULL"

end Literal

/-- A placeholder as text. -/
def parameterText : Option String → String
  | some name => ":" ++ name
  | none => "?"

namespace Expr

/-- How tightly an expression binds, from OR at 1 to what needs no parentheses at 7. -/
def precedence : Expr → Nat
  | .or .. => 1
  | .and .. => 2
  | .not _ => 3
  | .compare .. | .between .. | .inList .. | .inQuery .. | .like .. | .isNull .. => 4
  | .arithmetic op _ _ => op.precedence
  | _ => 7

/-- The place of an operand of a comparison. -/
def operandPlace : Nat := 5

end Expr

/-- Puts a text in parentheses. -/
def parens (text : String) : String := "(" ++ text ++ ")"

/-- The text of an operand that binds with strength `precedence` in a place that asks for
`place`. -/
def operandText (place precedence : Nat) (text : String) : String :=
  if precedence < place then parens text else text

/-- The word NOT with its blank, when negated. -/
def negation (negated : Bool) : String := if negated then "NOT " else ""

/-- Texts separated by commas. -/
def commas (texts : List String) : String := ", ".intercalate texts

mutual

/-- An expression as text. -/
def Expr.text : Expr → String
  | .literal value => value.text
  | .column c => c.text
  | .parameter name => parameterText name
  | .arithmetic op left right =>
    operandText op.precedence left.precedence left.text ++ " " ++ op.text ++ " " ++
      operandText (op.precedence + 1) right.precedence right.text
  | .compare op left right =>
    operandText Expr.operandPlace left.precedence left.text ++ " " ++ op.text ++ " " ++
      operandText Expr.operandPlace right.precedence right.text
  | .between negated value low high =>
    operandText Expr.operandPlace value.precedence value.text ++ " " ++ negation negated ++
      "BETWEEN " ++ operandText Expr.operandPlace low.precedence low.text ++ " AND " ++
      operandText Expr.operandPlace high.precedence high.text
  | .inList negated value items =>
    operandText Expr.operandPlace value.precedence value.text ++ " " ++ negation negated ++
      "IN (" ++ commas (exprTexts items) ++ ")"
  | .inQuery negated value query =>
    operandText Expr.operandPlace value.precedence value.text ++ " " ++ negation negated ++
      "IN (" ++ query.text ++ ")"
  | .like negated value pattern =>
    operandText Expr.operandPlace value.precedence value.text ++ " " ++ negation negated ++
      "LIKE " ++ operandText Expr.operandPlace pattern.precedence pattern.text
  | .isNull negated value =>
    operandText Expr.operandPlace value.precedence value.text ++ " IS " ++ negation negated ++
      "NULL"
  | .and left right =>
    operandText 2 left.precedence left.text ++ " AND " ++ operandText 2 right.precedence right.text
  | .or left right =>
    operandText 1 left.precedence left.text ++ " OR " ++ operandText 1 right.precedence right.text
  | .not operand => "NOT " ++ operandText 3 operand.precedence operand.text
  | .call function distinct arguments =>
    function ++ "(" ++ (if distinct then "DISTINCT " else "") ++ commas (exprTexts arguments) ++ ")"
  | .case operand branches otherwise =>
    "CASE" ++ clauseText " " operand ++ whenTexts branches ++ clauseText " ELSE " otherwise ++
      " END"
  | .scalar query => parens query.text
  | .hasRows query => "EXISTS (" ++ query.text ++ ")"
  | .paren inner => parens inner.text
  | .star => "*"

/-- The texts of a list of expressions. -/
def exprTexts : List Expr → List String
  | [] => []
  | e :: rest => e.text :: exprTexts rest

/-- An expression behind its keyword, or nothing. -/
def clauseText (keyword : String) : Option Expr → String
  | none => ""
  | some e => keyword ++ e.text

/-- The branches of a CASE as text. -/
def whenTexts : List WhenThen → String
  | [] => ""
  | ⟨condition, result⟩ :: rest =>
    " WHEN " ++ condition.text ++ " THEN " ++ result.text ++ whenTexts rest

/-- A query as text. -/
def Select.text : Select → String
  | ⟨ctes, branches, order, limit⟩ =>
    (if ctes.isEmpty then "" else "WITH " ++ commas (cteTexts ctes) ++ " ") ++
      " UNION ".intercalate (branchTexts branches) ++
      (if order.isEmpty then "" else " ORDER BY " ++ commas (orderTexts order)) ++
      limitText limit

/-- A common table as text. -/
def Cte.text : Cte → String
  | ⟨name, query⟩ => name ++ " AS (" ++ query.text ++ ")"

/-- The texts of common tables. -/
def cteTexts : List Cte → List String
  | [] => []
  | cte :: rest => cte.text :: cteTexts rest

/-- A branch as text. -/
def Branch.text : Branch → String
  | ⟨distinct, items, sources, joins, criteria, group, having⟩ =>
    "SELECT " ++ (if distinct then "DISTINCT " else "") ++ commas (itemTexts items) ++
      (if sources.isEmpty then "" else " FROM " ++ commas (sourceTexts sources)) ++
      joinTexts joins ++
      clauseText " WHERE " criteria ++
      (if group.isEmpty then "" else " GROUP BY " ++ commas (exprTexts group)) ++
      clauseText " HAVING " having

/-- The texts of branches. -/
def branchTexts : List Branch → List String
  | [] => []
  | branch :: rest => branch.text :: branchTexts rest

/-- An item of a projection as text. -/
def Item.text : Item → String
  | .star => "*"
  | .tableStar table => table ++ ".*"
  | .expr value aliasName =>
    value.text ++ match aliasName with
      | some aliasName => " AS " ++ aliasName
      | none => ""

/-- The texts of the items of a projection. -/
def itemTexts : List Item → List String
  | [] => []
  | item :: rest => item.text :: itemTexts rest

/-- A source as text. -/
def Source.text : Source → String
  | .table name aliasName =>
    match aliasName with
    | some aliasName => name ++ " " ++ aliasName
    | none => name
  | .derived query aliasName => "(" ++ query.text ++ ") " ++ aliasName

/-- The texts of sources. -/
def sourceTexts : List Source → List String
  | [] => []
  | source :: rest => source.text :: sourceTexts rest

/-- The condition of a join as text. -/
def JoinCondition.text : JoinCondition → String
  | .predicate condition => " ON " ++ condition.text
  | .shared columns => " USING (" ++ commas columns ++ ")"
  | .unconditional => ""

/-- A join as text. -/
def Join.text : Join → String
  | ⟨kind, source, condition⟩ => kind.text ++ " " ++ source.text ++ condition.text

/-- Joins as text, each after a blank. -/
def joinTexts : List Join → String
  | [] => ""
  | join :: rest => " " ++ join.text ++ joinTexts rest

/-- The terms of an order as texts. -/
def orderTexts : List OrderTerm → List String
  | [] => []
  | ⟨value, descending⟩ :: rest =>
    (value.text ++ if descending then " DESC" else "") :: orderTexts rest

/-- A limit as text. -/
def limitText : Option Limit → String
  | none => ""
  | some ⟨count, offset⟩ => " LIMIT " ++ count.text ++ clauseText " OFFSET " offset

end

/-- A row of values as text. -/
def rowText (row : List Expr) : String := parens (commas (exprTexts row))

namespace Assignment

/-- An assignment as text. -/
def text (a : Assignment) : String := a.column ++ " = " ++ a.value.text

end Assignment

namespace InsertRows

/-- What an INSERT writes, as text. -/
def text : InsertRows → String
  | values rows => "VALUES " ++ commas (rows.map rowText)
  | query select => select.text

end InsertRows

namespace Statement

/-- A statement as text. -/
def text : Statement → String
  | select query => query.text
  | insert table columns rows =>
    "INSERT INTO " ++ table ++ (if columns.isEmpty then "" else " (" ++ commas columns ++ ")") ++
      " " ++ rows.text
  | update table assignments criteria =>
    "UPDATE " ++ table ++ " SET " ++ commas (assignments.map Assignment.text) ++
      clauseText " WHERE " criteria
  | delete table criteria => "DELETE FROM " ++ table ++ clauseText " WHERE " criteria

end Statement

end QuerySignature
