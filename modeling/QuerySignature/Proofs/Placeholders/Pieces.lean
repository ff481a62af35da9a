import QuerySignature.Analysis.Query

namespace QuerySignature

/-! # The text of a statement in pieces

The text of a statement, cut where its placeholders stand. Each piece is either words or one
placeholder together with what it stands for there: a value, the whole of an IN list, or a column
to order by. The pieces are laid out by the rules that print the statement.

- `Expr.textOf_pieces`, `Select.textOf_pieces`, ...: put together, the pieces are the text.
- `Statement.textOf_pieces`: so they are for a statement.
- `entries`: what the placeholders among some pieces ask of a caller, in their order.
-/

/-! ## Pieces -/

/-- What a placeholder stands for in its place. -/
inductive Role where
  | value
  /-- It is all there is in an IN list, without parentheses. -/
  | list
  /-- It is a term of ORDER BY. -/
  | sort
  deriving DecidableEq, Repr

/-- A piece of a text. -/
inductive Piece where
  | words (text : String)
  | placeholder (name : Option String) (role : Role)
  deriving DecidableEq, Repr

namespace Piece

/-- A piece as text. -/
def text : Piece → String
  | words text => text
  | placeholder name _ => parameterText name

/-- A piece of a term of ORDER BY that is a placeholder. -/
def asSort : Piece → Piece
  | words text => words text
  | placeholder name _ => placeholder name .sort

end Piece

/-- What a caller passes for a placeholder: one value, or a list of them. -/
structure Entry where
  name : Option String
  list : Bool
  deriving DecidableEq, Repr

/-- What a caller passes for a piece; nothing for words, nor for a term of ORDER BY. -/
def Piece.entry? : Piece → Option Entry
  | .placeholder name .value => some ⟨name, false⟩
  | .placeholder name .list => some ⟨name, true⟩
  | _ => none

/-- Pieces put together. -/
def textOf : List Piece → String
  | [] => ""
  | piece :: rest => piece.text ++ textOf rest

/-- What a caller passes for pieces, in their order. -/
def entries (pieces : List Piece) : List Entry := pieces.filterMap Piece.entry?

@[simp] theorem textOf_nil : textOf [] = "" := rfl

@[simp] theorem textOf_cons (piece : Piece) (rest : List Piece) :
    textOf (piece :: rest) = piece.text ++ textOf rest := rfl

@[simp] theorem textOf_append (ps qs : List Piece) : textOf (ps ++ qs) = textOf ps ++ textOf qs := by
  induction ps with
  | nil => simp
  | cons piece rest ih => simp [ih, String.append_assoc]

@[simp] theorem textOf_asSort (ps : List Piece) : textOf (ps.map Piece.asSort) = textOf ps := by
  induction ps with
  | nil => rfl
  | cons piece rest ih => cases piece <;> simp [ih, Piece.asSort, Piece.text]

@[simp] theorem entries_nil : entries [] = [] := rfl

@[simp] theorem entries_words (text : String) (rest : List Piece) :
    entries (.words text :: rest) = entries rest := rfl

@[simp] theorem entries_value (name : Option String) (rest : List Piece) :
    entries (.placeholder name .value :: rest) = ⟨name, false⟩ :: entries rest := rfl

@[simp] theorem entries_list (name : Option String) (rest : List Piece) :
    entries (.placeholder name .list :: rest) = ⟨name, true⟩ :: entries rest := rfl

@[simp] theorem entries_append (ps qs : List Piece) :
    entries (ps ++ qs) = entries ps ++ entries qs := List.filterMap_append

@[simp] theorem entries_asSort (ps : List Piece) : entries (ps.map Piece.asSort) = [] := by
  induction ps with
  | nil => rfl
  | cons piece rest ih => cases piece <;> exact ih

/-! ## Layout -/

/-- Parts with a separator between them. -/
def separated (separator : String) : List (List Piece) → List Piece
  | [] => []
  | [part] => part
  | part :: next :: rest => part ++ .words separator :: separated separator (next :: rest)

/-- Parts with commas between them, after an opening and before a closing; nothing without any
parts. -/
def clausePieces (opening : String) (parts : List (List Piece)) (closing : String) : List Piece :=
  if parts.isEmpty then [] else .words opening :: separated ", " parts ++ [.words closing]

/-- The pieces of an operand, in parentheses where its place asks for them. -/
def operandPieces (place precedence : Nat) (pieces : List Piece) : List Piece :=
  if precedence < place then .words "(" :: pieces ++ [.words ")"] else pieces

@[simp] theorem textOf_separated (separator : String) (parts : List (List Piece)) :
    textOf (separated separator parts) = separator.intercalate (parts.map textOf) := by
  fun_induction separated separator parts with
  | case1 => rfl
  | case2 part => simp
  | case3 part next rest ih =>
    simp only [textOf_append, textOf_cons, Piece.text, ih, List.map_cons,
      String.intercalate_cons_cons, String.append_assoc]

@[simp] theorem textOf_clausePieces (opening : String) (parts : List (List Piece))
    (closing : String) :
    textOf (clausePieces opening parts closing) =
      if parts.isEmpty then "" else opening ++ commas (parts.map textOf) ++ closing := by
  unfold clausePieces
  split <;> simp [Piece.text, commas, String.append_assoc]

@[simp] theorem textOf_operandPieces (place precedence : Nat) (pieces : List Piece) :
    textOf (operandPieces place precedence pieces) =
      operandText place precedence (textOf pieces) := by
  unfold operandPieces operandText parens
  split <;> simp [Piece.text, String.append_assoc]

@[simp] theorem entries_separated (separator : String) (parts : List (List Piece)) :
    entries (separated separator parts) = parts.flatMap entries := by
  fun_induction separated separator parts with
  | case1 => rfl
  | case2 part => simp
  | case3 part next rest ih => simp [ih]

@[simp] theorem entries_clausePieces (opening : String) (parts : List (List Piece))
    (closing : String) : entries (clausePieces opening parts closing) = parts.flatMap entries := by
  unfold clausePieces
  cases parts <;> simp

@[simp] theorem entries_operandPieces (place precedence : Nat) (pieces : List Piece) :
    entries (operandPieces place precedence pieces) = entries pieces := by
  unfold operandPieces
  split <;> simp

/-! ## Expressions and queries -/

mutual

/-- An expression in pieces. -/
def Expr.pieces : Expr → List Piece
  | .literal value => [.words value.text]
  | .column c => [.words c.text]
  | .parameter name => [.placeholder name .value]
  | .arithmetic op left right =>
    operandPieces op.precedence left.precedence left.pieces ++ .words (" " ++ op.text ++ " ") ::
      operandPieces (op.precedence + 1) right.precedence right.pieces
  | .compare op left right =>
    operandPieces Expr.operandPlace left.precedence left.pieces ++
      .words (" " ++ op.text ++ " ") ::
        operandPieces Expr.operandPlace right.precedence right.pieces
  | .between negated value low high =>
    operandPieces Expr.operandPlace value.precedence value.pieces ++
      .words (" " ++ negation negated ++ "BETWEEN ") ::
        operandPieces Expr.operandPlace low.precedence low.pieces ++
          .words " AND " :: operandPieces Expr.operandPlace high.precedence high.pieces
  | .inList negated value items =>
    operandPieces Expr.operandPlace value.precedence value.pieces ++
      .words (" " ++ negation negated ++ "IN (") ::
        (match soleParameter? items with
          | some name => [.placeholder name .list]
          | none => separated ", " (exprPieces items)) ++ [.words ")"]
  | .inQuery negated value query =>
    operandPieces Expr.operandPlace value.precedence value.pieces ++
      .words (" " ++ negation negated ++ "IN (") :: query.pieces ++ [.words ")"]
  | .like negated value pattern =>
    operandPieces Expr.operandPlace value.precedence value.pieces ++
      .words (" " ++ negation negated ++ "LIKE ") ::
        operandPieces Expr.operandPlace pattern.precedence pattern.pieces
  | .isNull negated value =>
    operandPieces Expr.operandPlace value.precedence value.pieces ++
      [.words (" IS " ++ negation negated ++ "NULL")]
  | .and left right =>
    operandPieces 2 left.precedence left.pieces ++
      .words " AND " :: operandPieces 2 right.precedence right.pieces
  | .or left right =>
    operandPieces 1 left.precedence left.pieces ++
      .words " OR " :: operandPieces 1 right.precedence right.pieces
  | .not operand => .words "NOT " :: operandPieces 3 operand.precedence operand.pieces
  | .call function distinct arguments =>
    .words (function ++ "(" ++ if distinct then "DISTINCT " else "") ::
      separated ", " (exprPieces arguments) ++ [.words ")"]
  | .case operand branches otherwise =>
    .words "CASE" :: optionPieces " " operand ++ whenPieces branches ++
      optionPieces " ELSE " otherwise ++ [.words " END"]
  | .scalar query => .words "(" :: query.pieces ++ [.words ")"]
  | .hasRows query => .words "EXISTS (" :: query.pieces ++ [.words ")"]
  | .paren inner => .words "(" :: inner.pieces ++ [.words ")"]
  | .star => [.words "*"]

/-- Each of some expressions in pieces. -/
def exprPieces : List Expr → List (List Piece)
  | [] => []
  | e :: rest => e.pieces :: exprPieces rest

/-- An expression behind its keyword, or nothing. -/
def optionPieces (keyword : String) : Option Expr → List Piece
  | none => []
  | some e => .words keyword :: e.pieces

/-- The branches of a CASE in pieces. -/
def whenPieces : List WhenThen → List Piece
  | [] => []
  | ⟨condition, result⟩ :: rest =>
    .words " WHEN " :: condition.pieces ++ .words " THEN " :: result.pieces ++ whenPieces rest

/-- A query in pieces. -/
def Select.pieces : Select → List Piece
  | ⟨ctes, branches, order, limit⟩ =>
    clausePieces "WITH " (ctePieces ctes) " " ++ separated " UNION " (branchPieces branches) ++
      clausePieces " ORDER BY " (orderPieces order) "" ++ limitPieces limit

/-- Each of some common tables in pieces. -/
def ctePieces : List Cte → List (List Piece)
  | [] => []
  | ⟨name, query⟩ :: rest =>
    (.words (name ++ " AS (") :: query.pieces ++ [.words ")"]) :: ctePieces rest

/-- A branch in pieces. -/
def Branch.pieces : Branch → List Piece
  | ⟨distinct, items, sources, joins, criteria, group, having⟩ =>
    .words ("SELECT " ++ if distinct then "DISTINCT " else "") ::
      separated ", " (itemPieces items) ++ clausePieces " FROM " (sourcePieces sources) "" ++
      joinPieces joins ++ optionPieces " WHERE " criteria ++
      clausePieces " GROUP BY " (exprPieces group) "" ++ optionPieces " HAVING " having

/-- Each of some branches in pieces. -/
def branchPieces : List Branch → List (List Piece)
  | [] => []
  | branch :: rest => branch.pieces :: branchPieces rest

/-- An item of a projection in pieces. -/
def Item.pieces : Item → List Piece
  | .star => [.words "*"]
  | .tableStar table => [.words (table ++ ".*")]
  | .expr value aliasName =>
    value.pieces ++ [.words (match aliasName with
      | some aliasName => " AS " ++ aliasName
      | none => "")]

/-- Each item of a projection in pieces. -/
def itemPieces : List Item → List (List Piece)
  | [] => []
  | item :: rest => item.pieces :: itemPieces rest

/-- A source in pieces. -/
def Source.pieces : Source → List Piece
  | .table name aliasName => [.words (Source.table name aliasName).text]
  | .derived query aliasName => .words "(" :: query.pieces ++ [.words (") " ++ aliasName)]

/-- Each of some sources in pieces. -/
def sourcePieces : List Source → List (List Piece)
  | [] => []
  | source :: rest => source.pieces :: sourcePieces rest

/-- The condition of a join in pieces. -/
def JoinCondition.pieces : JoinCondition → List Piece
  | .predicate condition => .words " ON " :: condition.pieces
  | .shared columns => [.words (" USING (" ++ commas columns ++ ")")]
  | .unconditional => []

/-- Joins in pieces. -/
def joinPieces : List Join → List Piece
  | [] => []
  | ⟨kind, source, condition⟩ :: rest =>
    .words (" " ++ kind.text ++ " ") :: source.pieces ++ condition.pieces ++ joinPieces rest

/-- Each term of an order in pieces. A placeholder, with parentheses or without, is there to sort
by. -/
def orderPieces : List OrderTerm → List (List Piece)
  | [] => []
  | ⟨value, descending⟩ :: rest =>
    ((if value.isParameter then value.pieces.map Piece.asSort else value.pieces) ++
      [.words (if descending then " DESC" else "")]) :: orderPieces rest

/-- A limit in pieces. -/
def limitPieces : Option Limit → List Piece
  | none => []
  | some ⟨count, offset⟩ => .words " LIMIT " :: count.pieces ++ optionPieces " OFFSET " offset

end

/-! ## The text of the pieces -/

theorem eq_of_soleParameter? {items : List Expr} {name : Option String}
    (h : soleParameter? items = some name) : items = [.parameter name] := by
  unfold soleParameter? at h
  split at h
  · cases h
    rfl
  · cases h

theorem isEmpty_exprPieces (es : List Expr) : (exprPieces es).isEmpty = es.isEmpty := by
  cases es <;> rfl

theorem isEmpty_ctePieces (ctes : List Cte) : (ctePieces ctes).isEmpty = ctes.isEmpty := by
  rcases ctes with _ | ⟨⟨_, _⟩, _⟩ <;> rfl

theorem isEmpty_sourcePieces (xs : List Source) : (sourcePieces xs).isEmpty = xs.isEmpty := by
  cases xs <;> rfl

theorem isEmpty_orderPieces (terms : List OrderTerm) :
    (orderPieces terms).isEmpty = terms.isEmpty := by
  rcases terms with _ | ⟨⟨_, _⟩, _⟩ <;> rfl

mutual

theorem Expr.textOf_pieces (e : Expr) : textOf e.pieces = e.text := by
  match e with
  | .literal value => simp [Expr.pieces, Expr.text, Piece.text]
  | .column c => simp [Expr.pieces, Expr.text, Piece.text]
  | .parameter name => simp [Expr.pieces, Expr.text, Piece.text]
  | .arithmetic op left right =>
    simp [Expr.pieces, Expr.text, Piece.text, String.append_assoc, left.textOf_pieces,
      right.textOf_pieces]
  | .compare op left right =>
    simp [Expr.pieces, Expr.text, Piece.text, String.append_assoc, left.textOf_pieces,
      right.textOf_pieces]
  | .between negated value low high =>
    simp [Expr.pieces, Expr.text, Piece.text, String.append_assoc, value.textOf_pieces,
      low.textOf_pieces, high.textOf_pieces]
  | .inList negated value items =>
    -- a placeholder that is all of the list is printed as a list of one
    have hitems : textOf (match soleParameter? items with
        | some name => [.placeholder name .list]
        | none => separated ", " (exprPieces items)) = commas (exprTexts items) := by
      split
      · next name hsole =>
        rw [eq_of_soleParameter? hsole]
        simp [Piece.text, commas, exprTexts, Expr.text]
      · rw [textOf_separated, texts_exprPieces items, commas]
    simp only [Expr.pieces, Expr.text, textOf_append, textOf_cons, textOf_operandPieces,
      value.textOf_pieces, hitems]
    simp [Piece.text, String.append_assoc]
  | .inQuery negated value query =>
    simp [Expr.pieces, Expr.text, Piece.text, String.append_assoc, value.textOf_pieces,
      query.textOf_pieces]
  | .like negated value pattern =>
    simp [Expr.pieces, Expr.text, Piece.text, String.append_assoc, value.textOf_pieces,
      pattern.textOf_pieces]
  | .isNull negated value =>
    simp [Expr.pieces, Expr.text, Piece.text, String.append_assoc, value.textOf_pieces]
  | .and left right =>
    simp [Expr.pieces, Expr.text, Piece.text, String.append_assoc, left.textOf_pieces,
      right.textOf_pieces]
  | .or left right =>
    simp [Expr.pieces, Expr.text, Piece.text, String.append_assoc, left.textOf_pieces,
      right.textOf_pieces]
  | .not operand => simp [Expr.pieces, Expr.text, Piece.text, operand.textOf_pieces]
  | .call function distinct arguments =>
    simp [Expr.pieces, Expr.text, Piece.text, String.append_assoc, commas,
      texts_exprPieces arguments]
  | .case operand branches otherwise =>
    simp [Expr.pieces, Expr.text, Piece.text, String.append_assoc, textOf_optionPieces _ operand,
      textOf_whenPieces branches, textOf_optionPieces _ otherwise]
  | .scalar query =>
    simp [Expr.pieces, Expr.text, Piece.text, String.append_assoc, parens, query.textOf_pieces]
  | .hasRows query =>
    simp [Expr.pieces, Expr.text, Piece.text, String.append_assoc, query.textOf_pieces]
  | .paren inner =>
    simp [Expr.pieces, Expr.text, Piece.text, String.append_assoc, parens, inner.textOf_pieces]
  | .star => simp [Expr.pieces, Expr.text, Piece.text]

theorem texts_exprPieces (es : List Expr) : (exprPieces es).map textOf = exprTexts es := by
  match es with
  | [] => rfl
  | e :: rest => simp [exprPieces, exprTexts, e.textOf_pieces, texts_exprPieces rest]

theorem textOf_optionPieces (keyword : String) (o : Option Expr) :
    textOf (optionPieces keyword o) = clauseText keyword o := by
  match o with
  | none => rfl
  | some e => simp [optionPieces, clauseText, Piece.text, e.textOf_pieces]

theorem textOf_whenPieces (bs : List WhenThen) : textOf (whenPieces bs) = whenTexts bs := by
  match bs with
  | [] => rfl
  | ⟨condition, result⟩ :: rest =>
    simp [whenPieces, whenTexts, Piece.text, String.append_assoc, condition.textOf_pieces,
      result.textOf_pieces, textOf_whenPieces rest]

theorem Select.textOf_pieces (q : Select) : textOf q.pieces = q.text := by
  match q with
  | ⟨ctes, branches, order, limit⟩ =>
    simp [Select.pieces, Select.text, String.append_assoc, isEmpty_ctePieces, isEmpty_orderPieces,
      texts_ctePieces ctes, texts_branchPieces branches, texts_orderPieces order,
      textOf_limitPieces limit]

theorem texts_ctePieces (ctes : List Cte) : (ctePieces ctes).map textOf = cteTexts ctes := by
  match ctes with
  | [] => rfl
  | ⟨name, query⟩ :: rest =>
    simp [ctePieces, cteTexts, Cte.text, Piece.text, String.append_assoc, query.textOf_pieces,
      texts_ctePieces rest]

theorem Branch.textOf_pieces (b : Branch) : textOf b.pieces = b.text := by
  match b with
  | ⟨distinct, items, sources, joins, criteria, group, having⟩ =>
    simp [Branch.pieces, Branch.text, Piece.text, String.append_assoc, commas,
      isEmpty_sourcePieces, isEmpty_exprPieces, texts_itemPieces items,
      texts_sourcePieces sources, textOf_joinPieces joins, textOf_optionPieces _ criteria,
      texts_exprPieces group, textOf_optionPieces _ having]

theorem texts_branchPieces (bs : List Branch) : (branchPieces bs).map textOf = branchTexts bs := by
  match bs with
  | [] => rfl
  | b :: rest => simp [branchPieces, branchTexts, b.textOf_pieces, texts_branchPieces rest]

theorem Item.textOf_pieces (item : Item) : textOf item.pieces = item.text := by
  match item with
  | .star => simp [Item.pieces, Item.text, Piece.text]
  | .tableStar table => simp [Item.pieces, Item.text, Piece.text]
  | .expr value aliasName =>
    cases aliasName <;> simp [Item.pieces, Item.text, Piece.text, value.textOf_pieces]

theorem texts_itemPieces (items : List Item) : (itemPieces items).map textOf = itemTexts items := by
  match items with
  | [] => rfl
  | item :: rest => simp [itemPieces, itemTexts, item.textOf_pieces, texts_itemPieces rest]

theorem Source.textOf_pieces (x : Source) : textOf x.pieces = x.text := by
  match x with
  | .table name aliasName => simp [Source.pieces, Piece.text]
  | .derived query aliasName =>
    simp [Source.pieces, Source.text, Piece.text, String.append_assoc, query.textOf_pieces]

theorem texts_sourcePieces (xs : List Source) : (sourcePieces xs).map textOf = sourceTexts xs := by
  match xs with
  | [] => rfl
  | x :: rest => simp [sourcePieces, sourceTexts, x.textOf_pieces, texts_sourcePieces rest]

theorem JoinCondition.textOf_pieces (c : JoinCondition) : textOf c.pieces = c.text := by
  match c with
  | .predicate condition =>
    simp [JoinCondition.pieces, JoinCondition.text, Piece.text, condition.textOf_pieces]
  | .shared columns => simp [JoinCondition.pieces, JoinCondition.text, Piece.text]
  | .unconditional => rfl

theorem textOf_joinPieces (js : List Join) : textOf (joinPieces js) = joinTexts js := by
  match js with
  | [] => rfl
  | ⟨kind, x, condition⟩ :: rest =>
    simp [joinPieces, joinTexts, Join.text, Piece.text, String.append_assoc, x.textOf_pieces,
      condition.textOf_pieces, textOf_joinPieces rest]

theorem texts_orderPieces (terms : List OrderTerm) :
    (orderPieces terms).map textOf = orderTexts terms := by
  match terms with
  | [] => rfl
  | ⟨value, descending⟩ :: rest =>
    have hvalue : textOf (if value.isParameter then value.pieces.map Piece.asSort
        else value.pieces) = value.text := by
      split
      · rw [textOf_asSort, value.textOf_pieces]
      · exact value.textOf_pieces
    simp [orderPieces, orderTexts, Piece.text, hvalue, texts_orderPieces rest]

theorem textOf_limitPieces (l : Option Limit) : textOf (limitPieces l) = limitText l := by
  match l with
  | none => rfl
  | some ⟨count, offset⟩ =>
    simp [limitPieces, limitText, Piece.text, String.append_assoc, count.textOf_pieces,
      textOf_optionPieces _ offset]

end

/-! ## Statements -/

/-- A row of values in pieces. -/
def rowPieces (row : List Expr) : List Piece :=
  .words "(" :: separated ", " (exprPieces row) ++ [.words ")"]

/-- An assignment in pieces. -/
def Assignment.pieces (a : Assignment) : List Piece := .words (a.column ++ " = ") :: a.value.pieces

/-- What an INSERT writes, in pieces. -/
def InsertRows.pieces : InsertRows → List Piece
  | values rows => .words "VALUES " :: separated ", " (rows.map rowPieces)
  | query select => select.pieces

namespace Statement

/-- The assignments of an UPDATE in pieces; nothing for another statement. -/
def written : Statement → List Piece
  | update _ assignments _ => separated ", " (assignments.map Assignment.pieces)
  | _ => []

/-- A statement in pieces. -/
def pieces : Statement → List Piece
  | select query => query.pieces
  | insert table columns rows =>
    .words ("INSERT INTO " ++ table ++
      (if columns.isEmpty then "" else " (" ++ commas columns ++ ")") ++ " ") :: rows.pieces
  | update table assignments criteria =>
    .words ("UPDATE " ++ table ++ " SET ") ::
      written (.update table assignments criteria) ++ optionPieces " WHERE " criteria
  | delete table criteria =>
    .words ("DELETE FROM " ++ table) :: optionPieces " WHERE " criteria

end Statement

theorem textOf_rowPieces (row : List Expr) : textOf (rowPieces row) = rowText row := by
  simp [rowPieces, rowText, parens, commas, Piece.text, String.append_assoc, texts_exprPieces]

theorem Assignment.textOf_pieces (a : Assignment) : textOf a.pieces = a.text := by
  simp [Assignment.pieces, Assignment.text, Piece.text, a.value.textOf_pieces]

theorem InsertRows.textOf_pieces (rows : InsertRows) : textOf rows.pieces = rows.text := by
  cases rows with
  | values rows =>
    have hrows : (rows.map rowPieces).map textOf = rows.map rowText := by
      simp [textOf_rowPieces]
    simp only [InsertRows.pieces, InsertRows.text, textOf_cons, textOf_separated, hrows, commas]
    rfl
  | query select => exact select.textOf_pieces

/-- Put together, the pieces of a statement are its text. -/
theorem Statement.textOf_pieces (s : Statement) : textOf s.pieces = s.text := by
  cases s with
  | select query => exact query.textOf_pieces
  | insert table columns rows =>
    simp [Statement.pieces, Statement.text, Piece.text, String.append_assoc, rows.textOf_pieces]
  | update table assignments criteria =>
    have hassignments : (assignments.map Assignment.pieces).map textOf =
        assignments.map Assignment.text := by
      simp [Assignment.textOf_pieces]
    simp only [Statement.pieces, Statement.written, Statement.text, textOf_cons, textOf_append,
      textOf_separated, hassignments, textOf_optionPieces]
    simp [Piece.text, commas, String.append_assoc]
  | delete table criteria =>
    simp [Statement.pieces, Statement.text, Piece.text, String.append_assoc, textOf_optionPieces]

end QuerySignature
