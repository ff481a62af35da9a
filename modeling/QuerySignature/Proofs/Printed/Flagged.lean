import QuerySignature.Proofs.Described
import QuerySignature.Proofs.Printed.Lines

namespace QuerySignature

/-! # Flags in printed statements

The text of a statement asks for something where a line of it starts with a flag. In a printed
statement whose names have no line breaks, such a line is one of a text in quotes, below its first.

- `Expr.flags`, `Select.flags`, ...: one case for each form of expression and for each clause;
- `Statement.hasFlag_text`: a flag of a printed statement is a line of a text that it quotes;
- `describeAnnotated_iff`: a query that is described has more with its own text only for a flag;
- `describeAnnotated_text`: so it depends on the texts in quotes alone.
-/

/-! ## The texts that a tree quotes -/

mutual

/-- The texts that an expression quotes, in the order of its text. -/
def Expr.strings : Expr → List String
  | .literal value => value.strings
  | .column _ | .parameter _ | .star => []
  | .arithmetic _ left right | .compare _ left right | .like _ left right | .and left right
  | .or left right => left.strings ++ right.strings
  | .between _ value low high => value.strings ++ low.strings ++ high.strings
  | .inList _ value items => value.strings ++ stringsOfAll items
  | .inQuery _ value query => value.strings ++ query.strings
  | .isNull _ value | .not value | .paren value => value.strings
  | .call _ _ arguments => stringsOfAll arguments
  | .case operand branches otherwise =>
    stringsOfSome operand ++ stringsOfBranches branches ++ stringsOfSome otherwise
  | .scalar query | .hasRows query => query.strings

/-- Those of a list of expressions. -/
def stringsOfAll : List Expr → List String
  | [] => []
  | e :: rest => e.strings ++ stringsOfAll rest

/-- Those of an expression that may be missing. -/
def stringsOfSome : Option Expr → List String
  | none => []
  | some e => e.strings

/-- Those of the branches of a CASE. -/
def stringsOfBranches : List WhenThen → List String
  | [] => []
  | ⟨condition, value⟩ :: rest => condition.strings ++ value.strings ++ stringsOfBranches rest

/-- The texts that a query quotes. -/
def Select.strings : Select → List String
  | ⟨ctes, branches, order, limit⟩ =>
    stringsOfCtes ctes ++ stringsOfUnion branches ++ stringsOfOrder order ++ stringsOfLimit limit

/-- Those of common tables. -/
def stringsOfCtes : List Cte → List String
  | [] => []
  | ⟨_, query⟩ :: rest => query.strings ++ stringsOfCtes rest

/-- Those of the branches of a query. -/
def stringsOfUnion : List Branch → List String
  | [] => []
  | branch :: rest => branch.strings ++ stringsOfUnion rest

/-- The texts that a branch quotes. -/
def Branch.strings : Branch → List String
  | ⟨_, items, sources, joins, criteria, group, having⟩ =>
    stringsOfItems items ++ stringsOfSources sources ++ stringsOfJoins joins ++
      stringsOfSome criteria ++ stringsOfAll group ++ stringsOfSome having

/-- Those of the items of a projection. -/
def stringsOfItems : List Item → List String
  | [] => []
  | item :: rest => item.strings ++ stringsOfItems rest

/-- The texts that an item of a projection quotes. -/
def Item.strings : Item → List String
  | .star | .tableStar _ => []
  | .expr value _ => value.strings

/-- Those of the sources after FROM. -/
def stringsOfSources : List Source → List String
  | [] => []
  | source :: rest => source.strings ++ stringsOfSources rest

/-- The texts that a source quotes. -/
def Source.strings : Source → List String
  | .table _ _ => []
  | .derived query _ => query.strings

/-- Those of joins. -/
def stringsOfJoins : List Join → List String
  | [] => []
  | ⟨_, source, condition⟩ :: rest => source.strings ++ condition.strings ++ stringsOfJoins rest

/-- The texts that the condition of a join quotes. -/
def JoinCondition.strings : JoinCondition → List String
  | .predicate e => e.strings
  | .shared _ | .unconditional => []

/-- Those of the terms of an ORDER BY. -/
def stringsOfOrder : List OrderTerm → List String
  | [] => []
  | ⟨value, _⟩ :: rest => value.strings ++ stringsOfOrder rest

/-- Those of LIMIT and OFFSET. -/
def stringsOfLimit : Option Limit → List String
  | none => []
  | some ⟨count, offset⟩ => count.strings ++ stringsOfSome offset

end

/-- The texts that an INSERT quotes in what it writes. -/
def InsertRows.strings : InsertRows → List String
  | .values rows => rows.flatMap stringsOfAll
  | .query select => select.strings

/-- The texts that a statement quotes. -/
def Statement.strings : Statement → List String
  | .select query => query.strings
  | .insert _ _ rows => rows.strings
  | .update _ assignments criteria =>
    (assignments.flatMap fun a => a.value.strings) ++ stringsOfSome criteria
  | .delete _ criteria => stringsOfSome criteria

/-! ## Expressions and queries -/

mutual

theorem Expr.flags (e : Expr) (h : e.Spelled oneLineNaming) : Flags e.strings e.pieces := by
  match e with
  | .literal value => exact .literal value
  | .column c =>
    have hc : OneLine c.text := by
      unfold ColumnRef.text
      split
      · next table htable => exact ((h.1 table htable).append (by decide)).append h.2
      · exact h.2
    exact .words hc
  | .parameter name => exact .placeholder h .value
  | .arithmetic op left right =>
    have hop : OneLine (" " ++ op.text ++ " ") := by cases op <;> decide
    exact (left.flags h.1).operand _ _ |>.between hop ((right.flags h.2).operand _ _)
  | .compare op left right =>
    have hop : OneLine (" " ++ op.text ++ " ") := by cases op <;> decide
    exact (left.flags h.1).operand _ _ |>.between hop ((right.flags h.2).operand _ _)
  | .between negated value low high =>
    have hword : OneLine (" " ++ negation negated ++ "BETWEEN ") := by cases negated <;> decide
    have hlow := (value.flags h.1).operand Expr.operandPlace value.precedence |>.between hword
      ((low.flags h.2.1).operand Expr.operandPlace low.precedence)
    exact hlow.between (by decide) ((high.flags h.2.2).operand _ _)
  | .inList negated value items =>
    have hword : OneLine (" " ++ negation negated ++ "IN (") := by cases negated <;> decide
    -- a placeholder that is all of the list is laid out by itself
    have hitems : Flags (stringsOfAll items) (match soleParameter? items with
        | some name => [.placeholder name .list]
        | none => separated ", " (exprPieces items)) := by
      split
      · next name hsole =>
        obtain rfl := eq_of_soleParameter? hsole
        exact .placeholder h.2.1 .list
      · exact flags_all items h.2 ", " (by decide)
    exact ((value.flags h.1).operand _ _ |>.between hword hitems).closing (by decide)
  | .inQuery negated value query =>
    have hword : OneLine (" " ++ negation negated ++ "IN (") := by cases negated <;> decide
    have hvalue := (value.flags h.1).operand Expr.operandPlace value.precedence
    exact (hvalue.between hword (query.flags h.2)).closing (by decide)
  | .like negated value pattern =>
    have hword : OneLine (" " ++ negation negated ++ "LIKE ") := by cases negated <;> decide
    exact (value.flags h.1).operand _ _ |>.between hword ((pattern.flags h.2).operand _ _)
  | .isNull negated value =>
    exact ((value.flags h).operand _ _).closing (by cases negated <;> decide)
  | .and left right =>
    exact (left.flags h.1).operand _ _ |>.between (by decide) ((right.flags h.2).operand _ _)
  | .or left right =>
    exact (left.flags h.1).operand _ _ |>.between (by decide) ((right.flags h.2).operand _ _)
  | .not operand => exact ((operand.flags h).operand _ _).opening (by decide)
  | .call function distinct arguments =>
    have hfunction : OneLine (function ++ "(" ++ if distinct then "DISTINCT " else "") :=
      (AllChars.append h.1 (by decide)).append (.ite (by decide) (by decide))
    exact ((flags_all arguments h.2 ", " (by decide)).opening hfunction).closing (by decide)
  | .case operand branches otherwise =>
    have hoperand := (flags_some (by decide : OneLine " ") operand h.1).opening
      (by decide : OneLine "CASE")
    have hbranches := hoperand.append (flags_branches branches h.2.1)
    have hotherwise := hbranches.append
      (flags_some (by decide : OneLine " ELSE ") otherwise h.2.2)
    exact hotherwise.closing (by decide)
  | .scalar query => exact ((query.flags h).opening (by decide)).closing (by decide)
  | .hasRows query => exact ((query.flags h).opening (by decide)).closing (by decide)
  | .paren inner => exact ((inner.flags h).opening (by decide)).closing (by decide)
  | .star => exact .words (by decide)

theorem flags_all (es : List Expr) (h : SpelledAll oneLineNaming es) :
    FlagsRow (stringsOfAll es) (exprPieces es) := by
  match es with
  | [] => exact .nil
  | e :: rest => exact .cons (e.flags h.1) (flags_all rest h.2)

theorem flags_some {keyword : String} (hkeyword : OneLine keyword) (o : Option Expr)
    (h : SpelledSome oneLineNaming o) : Flags (stringsOfSome o) (optionPieces keyword o) := by
  match o with
  | none => exact .nil
  | some e => exact (e.flags h).opening hkeyword

theorem flags_branches (bs : List WhenThen) (h : SpelledBranches oneLineNaming bs) :
    Flags (stringsOfBranches bs) (whenPieces bs) := by
  match bs with
  | [] => exact .nil
  | ⟨condition, value⟩ :: rest =>
    have hcondition := (condition.flags h.1).opening (by decide : OneLine " WHEN ")
    have hvalue := hcondition.between (by decide : OneLine " THEN ") (value.flags h.2.1)
    exact hvalue.append (flags_branches rest h.2.2)

theorem Select.flags (q : Select) (h : q.Spelled oneLineNaming) :
    Flags q.strings q.pieces := by
  match q with
  | ⟨ctes, branches, order, limit⟩ =>
    obtain ⟨hctes, hbranches, horder, hlimit⟩ := h
    have hwith := Flags.clause (by decide : OneLine "WITH ") (by decide : OneLine " ")
      (flags_ctes ctes hctes)
    have hunion := hwith.append (flags_union branches hbranches " UNION " (by decide))
    have hordered := hunion.append (.clause (by decide : OneLine " ORDER BY ")
      (by decide : OneLine "") (flags_order order horder))
    exact hordered.append (flags_limit limit hlimit)

theorem flags_ctes (ctes : List Cte) (h : SpelledCtes oneLineNaming ctes) :
    FlagsRow (stringsOfCtes ctes) (ctePieces ctes) := by
  match ctes with
  | [] => exact .nil
  | ⟨name, query⟩ :: rest =>
    have hname : OneLine (name ++ " AS (") := AllChars.append h.1 (by decide)
    exact .cons (((query.flags h.2.1).opening hname).closing (by decide)) (flags_ctes rest h.2.2)

theorem Branch.flags (b : Branch) (h : b.Spelled oneLineNaming) :
    Flags b.strings b.pieces := by
  match b with
  | ⟨distinct, items, sources, joins, criteria, group, having⟩ =>
    obtain ⟨hitems, hsources, hjoins, hcriteria, hgroup, hhaving⟩ := h
    have hselect : OneLine ("SELECT " ++ if distinct then "DISTINCT " else "") := by
      cases distinct <;> decide
    have hprojection := (flags_items items hitems ", " (by decide)).opening hselect
    have hfrom := hprojection.append (.clause (by decide : OneLine " FROM ")
      (by decide : OneLine "") (flags_sources sources hsources))
    have hjoined := hfrom.append (flags_joins joins hjoins)
    have hwhere := hjoined.append (flags_some (by decide : OneLine " WHERE ") criteria hcriteria)
    have hgrouped := hwhere.append (.clause (by decide : OneLine " GROUP BY ")
      (by decide : OneLine "") (flags_all group hgroup))
    exact hgrouped.append (flags_some (by decide : OneLine " HAVING ") having hhaving)

theorem flags_union (bs : List Branch) (h : SpelledUnion oneLineNaming bs) :
    FlagsRow (stringsOfUnion bs) (branchPieces bs) := by
  match bs with
  | [] => exact .nil
  | b :: rest => exact .cons (b.flags h.1) (flags_union rest h.2)

theorem Item.flags (item : Item) (h : item.Spelled oneLineNaming) :
    Flags item.strings item.pieces := by
  match item with
  | .star => exact .words (by decide)
  | .tableStar table => exact .words (AllChars.append h (by decide))
  | .expr value none => exact (value.flags h.1).closing (by decide)
  | .expr value (some aliasName) =>
    exact (value.flags h.1).closing (AllChars.append (by decide) (h.2 aliasName rfl))

theorem flags_items (items : List Item) (h : SpelledItems oneLineNaming items) :
    FlagsRow (stringsOfItems items) (itemPieces items) := by
  match items with
  | [] => exact .nil
  | item :: rest => exact .cons (item.flags h.1) (flags_items rest h.2)

theorem Source.flags (x : Source) (h : x.Spelled oneLineNaming) :
    Flags x.strings x.pieces := by
  match x with
  | .table name none => exact .words h.1
  | .table name (some aliasName) =>
    exact .words ((AllChars.append h.1 (by decide)).append (h.2 aliasName rfl))
  | .derived query aliasName =>
    exact ((query.flags h.1).opening (by decide)).closing (AllChars.append (by decide) h.2)

theorem flags_sources (xs : List Source) (h : SpelledSources oneLineNaming xs) :
    FlagsRow (stringsOfSources xs) (sourcePieces xs) := by
  match xs with
  | [] => exact .nil
  | x :: rest => exact .cons (x.flags h.1) (flags_sources rest h.2)

theorem JoinCondition.flags (c : JoinCondition) (h : c.Spelled oneLineNaming) :
    Flags c.strings c.pieces := by
  match c with
  | .predicate e => exact (e.flags h).opening (by decide)
  | .shared columns =>
    have hcolumns : OneLine (" USING (" ++ commas columns ++ ")") :=
      (AllChars.append (by decide) (.commas (by decide) h)).append (by decide)
    exact .words hcolumns
  | .unconditional => exact .nil

theorem flags_joins (js : List Join) (h : SpelledJoins oneLineNaming js) :
    Flags (stringsOfJoins js) (joinPieces js) := by
  match js with
  | [] => exact .nil
  | ⟨kind, source, condition⟩ :: rest =>
    have hkind : OneLine (" " ++ kind.text ++ " ") := by cases kind <;> decide
    have hsource := (source.flags h.1).opening hkind
    exact (hsource.append (condition.flags h.2.1)).append (flags_joins rest h.2.2)

theorem flags_order (terms : List OrderTerm) (h : SpelledOrder oneLineNaming terms) :
    FlagsRow (stringsOfOrder terms) (orderPieces terms) := by
  match terms with
  | [] => exact .nil
  | ⟨value, descending⟩ :: rest =>
    have hvalue : Flags value.strings (if value.isParameter then
        value.pieces.map Piece.asSort else value.pieces) := by
      split
      · exact (value.flags h.1).asSort
      · exact value.flags h.1
    have hterm := hvalue.closing (by cases descending <;> decide :
      OneLine (if descending then " DESC" else ""))
    exact .cons hterm (flags_order rest h.2)

theorem flags_limit (limit : Option Limit) (h : SpelledLimit oneLineNaming limit) :
    Flags (stringsOfLimit limit) (limitPieces limit) := by
  match limit with
  | none => exact .nil
  | some ⟨count, offset⟩ =>
    exact ((count.flags h.1).opening (by decide : OneLine " LIMIT ")).append
      (flags_some (by decide : OneLine " OFFSET ") offset h.2)

end

/-! ## Statements -/

theorem flags_rows (rows : List (List Expr)) (h : ∀ row ∈ rows, SpelledAll oneLineNaming row) :
    FlagsRow (rows.flatMap stringsOfAll) (rows.map rowPieces) := by
  induction rows with
  | nil => exact .nil
  | cons row rest ih =>
    have hrow := flags_all row (h row (.head _)) ", " (by decide)
    rw [List.flatMap_cons, List.map_cons]
    exact .cons ((hrow.opening (by decide)).closing (by decide))
      (ih fun other hother => h other (.tail _ hother))

theorem flags_assignments (assignments : List Assignment)
    (h : ∀ a ∈ assignments, a.Spelled oneLineNaming) :
    FlagsRow (assignments.flatMap fun a => a.value.strings)
      (assignments.map Assignment.pieces) := by
  induction assignments with
  | nil => exact .nil
  | cons a rest ih =>
    obtain ⟨hcolumn, hvalue⟩ := h a (.head _)
    have hname : OneLine (a.column ++ " = ") := AllChars.append hcolumn (by decide)
    rw [List.flatMap_cons, List.map_cons]
    exact .cons ((a.value.flags hvalue).opening hname)
      (ih fun other hother => h other (.tail _ hother))

theorem InsertRows.flags (rows : InsertRows) (h : rows.Spelled oneLineNaming) :
    Flags rows.strings rows.pieces := by
  cases rows with
  | values rows => exact (flags_rows rows h ", " (by decide)).opening (by decide)
  | query select => exact select.flags h

theorem Statement.flags (st : Statement) (h : st.Spelled oneLineNaming) :
    Flags st.strings st.pieces := by
  cases st with
  | select query => exact query.flags h
  | insert table columns rows =>
    have hcolumns : OneLine (if columns.isEmpty then "" else " (" ++ commas columns ++ ")") :=
      .ite (by decide) ((AllChars.append (by decide) (.commas (by decide) h.2.1)).append (by decide))
    have hwords := ((AllChars.append (by decide : OneLine "INSERT INTO ") h.1).append
      hcolumns).append (by decide : OneLine " ")
    exact (rows.flags h.2.2).opening hwords
  | update table assignments criteria =>
    have hwords := (AllChars.append (by decide : OneLine "UPDATE ") h.1).append
      (by decide : OneLine " SET ")
    have hset := (flags_assignments assignments h.2.1 ", " (by decide)).opening hwords
    exact hset.append (flags_some (by decide : OneLine " WHERE ") criteria h.2.2)
  | delete table criteria =>
    have hwords := AllChars.append (by decide : OneLine "DELETE FROM ") h.1
    exact (flags_some (by decide : OneLine " WHERE ") criteria h.2).opening hwords

/-! ## The first line -/

/-- A text that starts with a word, so that its first line is no comment. -/
def StartsPlainly (text : String) : Prop :=
  (text.toList.dropWhile isBlank).head?.any (· != '-') = true

instance (text : String) : Decidable (StartsPlainly text) := inferInstanceAs (Decidable (_ = true))

namespace StartsPlainly

variable {a : String}

theorem append (h : StartsPlainly a) (b : String) : StartsPlainly (a ++ b) := by
  unfold StartsPlainly at h ⊢
  rw [String.toList_append, List.dropWhile_append]
  cases hword : a.toList.dropWhile isBlank with
  | nil =>
    rw [hword] at h
    cases h
  | cons c rest =>
    rw [hword] at h
    exact h

theorem startsWithFlag_eq (h : StartsPlainly a) (flag : List Char) :
    startsWithFlag flag a.toList = false := by
  unfold StartsPlainly at h
  unfold startsWithFlag
  cases hword : a.toList.dropWhile isBlank with
  | nil => rfl
  | cons c rest =>
    rw [hword] at h
    have hc : ¬ '-' = c := fun hc => by simp [← hc] at h
    rw [behind?, if_neg hc]

end StartsPlainly

theorem startsPlainly_branch (b : Branch) : StartsPlainly b.text := by
  obtain ⟨distinct, items, sources, joins, criteria, group, having⟩ := b
  unfold Branch.text
  iterate 7 refine StartsPlainly.append ?_ _
  decide

/-- The text of a query is empty or starts with a word. -/
theorem startsPlainly_select (q : Select) : q.text = "" ∨ StartsPlainly q.text := by
  obtain ⟨ctes, branches, order, limit⟩ := q
  unfold Select.text
  cases ctes with
  | cons cte rest =>
    refine .inr (.append (.append (.append ?_ _) _) _)
    exact .append (.append (by decide : StartsPlainly "WITH ") _) _
  | nil =>
    rw [List.isEmpty_nil, if_pos rfl, String.empty_append]
    cases branches with
    | cons b rest =>
      refine .inr (.append (.append ?_ _) _)
      cases rest with
      | nil => simpa [branchTexts] using startsPlainly_branch b
      | cons next rest =>
        rw [branchTexts, branchTexts, String.intercalate_cons_cons]
        exact .append (.append (startsPlainly_branch b) _) _
    | nil =>
      have hnothing : " UNION ".intercalate (branchTexts []) = "" := rfl
      rw [hnothing, String.empty_append]
      cases order with
      | cons term rest => exact .inr (.append (.append (by decide : StartsPlainly " ORDER BY ") _) _)
      | nil =>
        rw [List.isEmpty_nil, if_pos rfl, String.empty_append]
        cases limit with
        | none => exact .inl rfl
        | some limit =>
          obtain ⟨count, offset⟩ := limit
          exact .inr (.append (.append (by decide : StartsPlainly " LIMIT ") _) _)

/-- The first line of a printed statement is no comment. -/
theorem Statement.startsWithFlag_text (st : Statement) (flag : List Char) :
    startsWithFlag flag st.text.toList = false := by
  cases st with
  | select q =>
    rcases startsPlainly_select q with h | h
    · show startsWithFlag flag q.text.toList = false
      rw [h]
      rfl
    · exact h.startsWithFlag_eq flag
  | insert table columns rows =>
    refine StartsPlainly.startsWithFlag_eq ?_ flag
    unfold Statement.text
    iterate 4 refine StartsPlainly.append ?_ _
    decide
  | update table assignments criteria =>
    refine StartsPlainly.startsWithFlag_eq ?_ flag
    unfold Statement.text
    iterate 4 refine StartsPlainly.append ?_ _
    decide
  | delete table criteria =>
    refine StartsPlainly.startsWithFlag_eq ?_ flag
    unfold Statement.text
    iterate 2 refine StartsPlainly.append ?_ _
    decide

/-! ## What the text of a statement asks for -/

/-- A flag of a printed statement is a line of a text that it quotes. -/
theorem Statement.hasFlag_text {st : Statement} (h : st.Spelled oneLineNaming) {flag : String}
    (hflag : '\'' ∉ flag.toList) : hasFlag flag st.text = st.strings.any (holdsFlag flag) := by
  have hbelow := st.flags h flag [] hflag
  have hnothing : flaggedBelow flag.toList [] = false := rfl
  rw [List.append_nil, st.textOf_pieces, hnothing, Bool.or_false] at hbelow
  rw [hasFlag_eq, st.startsWithFlag_text, Bool.false_or, hbelow]

/-- What is described of a statement is described with its own text, and with nothing that a comment
line asks for. -/
theorem plain_of_described {setting : Setting} {st : Statement} {d : Description}
    (h : describe setting st = .ok d) : d.sql = st.text ∧ d.nesting = none ∧ d.needs = none := by
  obtain ⟨analysis, run, solution, -, -, rfl⟩ := describe_eq_ok_iff.1 h
  exact ⟨rfl, rfl, rfl⟩

/-- A statement that is no query is described with its text as without. -/
theorem describeAnnotated_of_write (setting : Setting) {st : Statement} (h : st.kind ≠ .select) :
    describeAnnotated setting st.text st = describe setting st := by
  unfold describeAnnotated
  cases hd : describe setting st with
  | error e => rfl
  | ok d =>
    obtain ⟨hsql, -, -⟩ := plain_of_described hd
    cases st with
    | select q => exact absurd rfl h
    | insert | update | delete =>
      show Except.ok { d with sql := _ } = Except.ok d
      rw [← hsql]

/-- A query that is described is described with its text as without exactly if no line of the text
asks for anything. -/
theorem describeAnnotated_iff {setting : Setting} {q : Select} {d : Description}
    (hd : describe setting (.select q) = .ok d) :
    describeAnnotated setting q.text (.select q) = .ok d ↔
      Annotations.ofText q.text = ⟨false, false⟩ := by
  obtain ⟨hsql, hnesting, hneeds⟩ := plain_of_described hd
  have hself : { d with sql := q.text, nesting := none, needs := none } = d := by
    rw [← hnesting, ← hneeds]
    exact congrArg (fun sql => { d with sql }) hsql.symm
  unfold describeAnnotated
  rw [hd]
  show ((if (Annotations.ofText q.text).dynamic then _ else _ : Except AnalysisError Description) =
    _) ↔ _
  obtain ⟨dynamic, nested⟩ := Annotations.ofText q.text
  cases dynamic with
  | true =>
    refine ⟨fun h => ?_, nofun⟩
    -- needs that are asked for are either told or fail
    obtain ⟨needs, hfound, h⟩ := bind_eq_ok.1 h
    cases hcut : q.needs setting.schema with
    | error e =>
      rw [hcut] at hfound
      cases hfound
    | ok found =>
      rw [hcut] at hfound
      cases hfound
      have hsome := congrArg Description.needs (Except.ok.inj h)
      rw [hneeds] at hsome
      cases hsome
  | false =>
    cases nested with
    | true =>
      refine ⟨fun h => ?_, nofun⟩
      have hsome := congrArg Description.nesting (Except.ok.inj h)
      rw [hnesting] at hsome
      cases hsome
    | false => exact iff_of_true (congrArg Except.ok hself) rfl

/-- Where no name has a line break, the flags of a printed statement are lines of the texts that it
quotes, below the first line of each. The statement is described with its own text as it is described
without, unless it is a query that is described and quotes a text with such a line. -/
theorem describeAnnotated_text (setting : Setting) {st : Statement}
    (h : st.Spelled oneLineNaming) :
    Annotations.ofText st.text =
        ⟨st.strings.any (holdsFlag "dynamicQuery"), st.strings.any (holdsFlag "nested")⟩ ∧
      (describeAnnotated setting st.text st = describe setting st ↔
        st.kind ≠ .select ∨ (describe setting st).isOk = false ∨
          ∀ text ∈ st.strings, holdsFlag "dynamicQuery" text = false ∧
            holdsFlag "nested" text = false) := by
  have hflags : Annotations.ofText st.text =
      ⟨st.strings.any (holdsFlag "dynamicQuery"), st.strings.any (holdsFlag "nested")⟩ := by
    unfold Annotations.ofText
    rw [Statement.hasFlag_text h (by decide), Statement.hasFlag_text h (by decide)]
  refine ⟨hflags, ?_⟩
  by_cases hkind : st.kind = .select
  · obtain ⟨q, rfl⟩ : ∃ q, st = .select q := by
      cases st with
      | select q => exact ⟨q, rfl⟩
      | insert | update | delete => cases hkind
    cases hd : describe setting (.select q) with
    | error e =>
      refine iff_of_true ?_ (.inr (.inl rfl))
      unfold describeAnnotated
      rw [hd]
      rfl
    | ok d =>
      have hplain : Annotations.ofText q.text = ⟨false, false⟩ ↔
          ∀ text ∈ q.strings, holdsFlag "dynamicQuery" text = false ∧
            holdsFlag "nested" text = false := by
        have htext : Annotations.ofText q.text =
          ⟨q.strings.any (holdsFlag "dynamicQuery"), q.strings.any (holdsFlag "nested")⟩ := hflags
        simp only [htext, Annotations.mk.injEq, List.any_eq_false, Bool.not_eq_true, forall_and]
      show describeAnnotated setting q.text (.select q) = .ok d ↔ _
      rw [describeAnnotated_iff hd, hplain]
      refine ⟨fun h => .inr (.inr h), ?_⟩
      rintro (hother | hfailed | h)
      · exact absurd rfl hother
      · cases hfailed
      · exact h
  · exact iff_of_true (describeAnnotated_of_write setting hkind) (.inl hkind)

/-- `SELECT 's' AS s, id FROM mytable1`, with any text in quotes. -/
def quotingId (text : String) : Select :=
  ⟨[], [⟨false, [.expr (.literal (.string text)) (some "s"),
    .expr (.column ⟨none, "id"⟩) none], [.table "mytable1" none], [], none, [], none⟩], [], none⟩

theorem spelled_quotingId (text : String) : (quotingId text).Spelled oneLineNaming := by
  have hid : (⟨none, "id"⟩ : ColumnRef).Spelled oneLineNaming := ⟨nofun, (by decide : OneLine "id")⟩
  have hs : ∀ name ∈ some "s", OneLine name := by
    intro name hname
    cases hname
    decide
  have hitems : SpelledItems oneLineNaming [.expr (.literal (.string text)) (some "s"),
      .expr (.column ⟨none, "id"⟩) none] := ⟨⟨trivial, hs⟩, ⟨hid, nofun⟩, trivial⟩
  have hsources : SpelledSources oneLineNaming [.table "mytable1" none] :=
    ⟨⟨(by decide : OneLine "mytable1"), nofun⟩, trivial⟩
  exact ⟨trivial, ⟨⟨hitems, hsources, trivial, trivial, trivial, trivial⟩, trivial⟩, trivial,
    trivial⟩

/-- Three lines with no flag: the first line of a text in quotes does not count, the second starts with
a quote, and the word of the third is a longer one. -/
def threeLines : String := "-- @nested\n'-- @nested\n-- @nestedSet"

theorem describeAnnotated_text_threeLines :
    (Statement.select (quotingId threeLines)).Spelled oneLineNaming ∧
      (describe ⟨oneTable, .mysql⟩ (.select (quotingId threeLines))).isOk = true ∧
      Annotations.ofText (Statement.select (quotingId threeLines)).text = ⟨false, false⟩ ∧
      describeAnnotated ⟨oneTable, .mysql⟩ (Statement.select (quotingId threeLines)).text
          (.select (quotingId threeLines)) =
        describe ⟨oneTable, .mysql⟩ (.select (quotingId threeLines)) := by
  have hspelled : (Statement.select (quotingId threeLines)).Spelled oneLineNaming :=
    spelled_quotingId threeLines
  have hnone : ∀ text ∈ (Statement.select (quotingId threeLines)).strings,
      holdsFlag "dynamicQuery" text = false ∧ holdsFlag "nested" text = false := by
    decide +kernel
  obtain ⟨hflags, hsame⟩ := describeAnnotated_text ⟨oneTable, .mysql⟩ hspelled
  exact ⟨hspelled, by decide +kernel, hflags.trans (by decide +kernel),
    hsame.2 (.inr (.inr hnone))⟩

/-- The second line of a text in quotes may be taken for a comment line. -/
theorem quoted_line_is_flag :
    (Statement.select (quotingId "x\n-- @nested")).Spelled oneLineNaming ∧
      Annotations.ofText (quotingId "x\n-- @nested").text = ⟨false, true⟩ ∧
      describeAnnotated ⟨oneTable, .mysql⟩ (quotingId "x\n-- @nested").text
          (.select (quotingId "x\n-- @nested")) ≠
        describe ⟨oneTable, .mysql⟩ (.select (quotingId "x\n-- @nested")) := by
  have hflags : Annotations.ofText (quotingId "x\n-- @nested").text = ⟨false, true⟩ := by
    decide +kernel
  refine ⟨spelled_quotingId _, hflags, fun hsame => ?_⟩
  have hok : (describe ⟨oneTable, .mysql⟩ (.select (quotingId "x\n-- @nested"))).isOk = true := by
    decide +kernel
  obtain ⟨d, hd⟩ := exists_of_isOk hok
  rw [hd] at hsame
  have hplain := (describeAnnotated_iff hd).1 hsame
  rw [hflags] at hplain
  cases hplain

end QuerySignature
