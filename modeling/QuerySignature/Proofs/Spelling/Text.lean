import QuerySignature.Proofs.Spelling.Syntax
import QuerySignature.Syntax.Printer

namespace QuerySignature

/-! # Texts of one plain form

Where no parentheses are left out of account, an expression and its plain form differ in names only, and
so do their texts. It is the text that names an expression which is projected under no other name.

- `Expr.text_plain`: an expression with its parentheses.
- `Expr.text_kept`: an expression of which the parentheses are kept.
-/

namespace Spelling

variable (s : Spelling)

theorem name_intercalate (separator : String) (texts : List String) :
    s.name (separator.intercalate texts) = (s.name separator).intercalate (texts.map s.name) := by
  induction texts with
  | nil =>
    have hempty : s.name "" = "" := by
      cases hs : s.caseless with
      | true => exact name_of_caseless hs ""
      | false => exact name_of_exact hs ""
    simpa using hempty
  | cons text rest ih =>
    cases rest with
    | nil => simp
    | cons next rest =>
      rw [List.map_cons, List.map_cons, String.intercalate_cons_cons, String.intercalate_cons_cons,
        name_append, name_append, ih, List.map_cons]

/-- An operand is put in parentheses by how it binds, whatever its text. -/
theorem name_operandText (place precedence : Nat) (text : String) :
    s.name (operandText place precedence text) =
      if precedence < place then s.name "(" ++ s.name text ++ s.name ")" else s.name text := by
  unfold operandText
  split
  · rw [parens, name_append, name_append]
  · rfl

end Spelling

section

variable {s : Spelling}

theorem Spelling.paren_of_kept (hs : s.bare = false) (e : Expr) : s.paren e = .paren e := by
  rw [Spelling.paren, hs]
  rfl

theorem Spelling.projected_of_kept (hs : s.bare = false) (value : Expr) (aliasName : Option String) :
    s.projected value aliasName = s := by
  have hkept : s.kept = s := by
    rw [Spelling.kept, ← hs]
  unfold Spelling.projected
  rw [hkept, ite_self]

theorem Expr.precedence_plain (hs : s.bare = false) (e : Expr) :
    (e.plain s).precedence = e.precedence := by
  cases e with
  | paren inner =>
    show (s.paren (inner.plain s)).precedence = _
    rw [Spelling.paren_of_kept hs]
    rfl
  | _ => rfl

/-- Where all parentheses stay, so do those of an only item. -/
theorem plainList_of_kept (hs : s.bare = false) (items : List Expr) :
    plainList items (plainAll s items) = plainAll s items := by
  match items with
  | [] => rfl
  | [e] =>
    cases e with
    | paren inner =>
      show plainList [.paren inner] [s.paren (inner.plain s)] = [s.paren (inner.plain s)]
      rw [Spelling.paren_of_kept hs]
      rfl
    | _ => rfl
  | first :: second :: rest => cases first <;> rfl

theorem isEmpty_plainAll (es : List Expr) : (plainAll s es).isEmpty = es.isEmpty := by
  cases es <;> rfl

theorem isEmpty_plainCtes (ctes : List Cte) : (plainCtes s ctes).isEmpty = ctes.isEmpty := by
  cases ctes with
  | nil => rfl
  | cons cte rest => cases cte; rfl

theorem isEmpty_plainSources (xs : List Source) : (plainSources s xs).isEmpty = xs.isEmpty := by
  cases xs <;> rfl

theorem isEmpty_plainOrder (terms : List OrderTerm) :
    (plainOrder s terms).isEmpty = terms.isEmpty := by
  cases terms with
  | nil => rfl
  | cons term rest => cases term; rfl

/-! ## Texts -/

theorem ColumnRef.text_plain (s : Spelling) (c : ColumnRef) :
    s.name (c.plain s).text = s.name c.text := by
  obtain ⟨table, name⟩ := c
  have hname := s.same_name name
  cases table with
  | none => exact hname.symm
  | some table => exact (((s.same_name table).append rfl).append hname).symm

mutual

theorem Expr.text_plain (hs : s.bare = false) (e : Expr) :
    s.name (e.plain s).text = s.name e.text := by
  match e with
  | .literal _ | .parameter _ | .star => rfl
  | .column c => exact ColumnRef.text_plain s c
  | .arithmetic op left right =>
    simp only [Expr.plain, Expr.text, Spelling.name_append, Spelling.name_operandText,
      Expr.precedence_plain hs, Expr.text_plain hs left, Expr.text_plain hs right]
  | .compare op left right =>
    simp only [Expr.plain, Expr.text, Spelling.name_append, Spelling.name_operandText,
      Expr.precedence_plain hs, Expr.text_plain hs left, Expr.text_plain hs right]
  | .between negated value low high =>
    simp only [Expr.plain, Expr.text, Spelling.name_append, Spelling.name_operandText,
      Expr.precedence_plain hs, Expr.text_plain hs value, Expr.text_plain hs low,
      Expr.text_plain hs high]
  | .inList negated value items =>
    simp only [Expr.plain, Expr.text, Spelling.name_append, Spelling.name_operandText, commas,
      Spelling.name_intercalate, Expr.precedence_plain hs, plainList_of_kept hs,
      Expr.text_plain hs value, exprTexts_plain hs items]
  | .inQuery negated value query =>
    simp only [Expr.plain, Expr.text, Spelling.name_append, Spelling.name_operandText,
      Expr.precedence_plain hs, Expr.text_plain hs value, Select.text_plain hs query]
  | .like negated value pattern =>
    simp only [Expr.plain, Expr.text, Spelling.name_append, Spelling.name_operandText,
      Expr.precedence_plain hs, Expr.text_plain hs value, Expr.text_plain hs pattern]
  | .isNull negated value =>
    simp only [Expr.plain, Expr.text, Spelling.name_append, Spelling.name_operandText,
      Expr.precedence_plain hs, Expr.text_plain hs value]
  | .and left right | .or left right =>
    simp only [Expr.plain, Expr.text, Spelling.name_append, Spelling.name_operandText,
      Expr.precedence_plain hs, Expr.text_plain hs left, Expr.text_plain hs right]
  | .not operand =>
    simp only [Expr.plain, Expr.text, Spelling.name_append, Spelling.name_operandText,
      Expr.precedence_plain hs, Expr.text_plain hs operand]
  | .call function distinct arguments =>
    have hfunction : s.name (s.name function) = s.name function := (s.same_name function).symm
    simp only [Expr.plain, Expr.text, Spelling.name_append, commas, Spelling.name_intercalate,
      hfunction, exprTexts_plain hs arguments]
  | .case operand branches otherwise =>
    simp only [Expr.plain, Expr.text, Spelling.name_append, clauseText_plain hs operand,
      whenTexts_plain hs branches, clauseText_plain hs otherwise]
  | .scalar query =>
    simp only [Expr.plain, Expr.text, parens, Spelling.name_append, Select.text_plain hs query]
  | .hasRows query =>
    simp only [Expr.plain, Expr.text, Spelling.name_append, Select.text_plain hs query]
  | .paren inner =>
    simp only [Expr.plain, Spelling.paren_of_kept hs, Expr.text, parens, Spelling.name_append,
      Expr.text_plain hs inner]

theorem exprTexts_plain (hs : s.bare = false) (es : List Expr) :
    (exprTexts (plainAll s es)).map s.name = (exprTexts es).map s.name := by
  match es with
  | [] => rfl
  | e :: rest =>
    simp only [plainAll, exprTexts, List.map_cons, Expr.text_plain hs e, exprTexts_plain hs rest]

theorem clauseText_plain (hs : s.bare = false) {keyword : String} (o : Option Expr) :
    s.name (clauseText keyword (plainSome s o)) = s.name (clauseText keyword o) := by
  match o with
  | none => rfl
  | some e => simp only [plainSome, clauseText, Spelling.name_append, Expr.text_plain hs e]

theorem whenTexts_plain (hs : s.bare = false) (bs : List WhenThen) :
    s.name (whenTexts (plainWhens s bs)) = s.name (whenTexts bs) := by
  match bs with
  | [] => rfl
  | ⟨condition, result⟩ :: rest =>
    simp only [plainWhens, whenTexts, Spelling.name_append, Expr.text_plain hs condition,
      Expr.text_plain hs result, whenTexts_plain hs rest]

theorem Select.text_plain (hs : s.bare = false) (q : Select) :
    s.name (q.plain s).text = s.name q.text := by
  match q with
  | ⟨ctes, branches, order, limit⟩ =>
    simp only [Select.plain, Select.text, Spelling.name_append, apply_ite s.name, commas,
      Spelling.name_intercalate, isEmpty_plainCtes, isEmpty_plainOrder, cteTexts_plain hs ctes,
      branchTexts_plain hs branches, orderTexts_plain hs order, limitText_plain hs limit]

theorem cteTexts_plain (hs : s.bare = false) (ctes : List Cte) :
    (cteTexts (plainCtes s ctes)).map s.name = (cteTexts ctes).map s.name := by
  match ctes with
  | [] => rfl
  | ⟨name, query⟩ :: rest =>
    have hname : s.name (s.name name) = s.name name := (s.same_name name).symm
    simp only [plainCtes, cteTexts, Cte.text, List.map_cons, Spelling.name_append, hname,
      Select.text_plain hs query, cteTexts_plain hs rest]

theorem branchTexts_plain (hs : s.bare = false) (branches : List Branch) :
    (branchTexts (plainUnion s branches)).map s.name = (branchTexts branches).map s.name := by
  match branches with
  | [] => rfl
  | branch :: rest =>
    simp only [plainUnion, branchTexts, List.map_cons, Branch.text_plain hs branch,
      branchTexts_plain hs rest]

theorem Branch.text_plain (hs : s.bare = false) (branch : Branch) :
    s.name (branch.plain s).text = s.name branch.text := by
  match branch with
  | ⟨distinct, items, sources, joins, criteria, group, having⟩ =>
    simp only [Branch.plain, Branch.text, Spelling.name_append, apply_ite s.name, commas,
      Spelling.name_intercalate, isEmpty_plainSources, isEmpty_plainAll, itemTexts_plain hs items,
      sourceTexts_plain hs sources, joinTexts_plain hs joins, clauseText_plain hs criteria,
      exprTexts_plain hs group, clauseText_plain hs having]

theorem itemTexts_plain (hs : s.bare = false) (items : List Item) :
    (itemTexts (plainItems s items)).map s.name = (itemTexts items).map s.name := by
  match items with
  | [] => rfl
  | item :: rest =>
    simp only [plainItems, itemTexts, List.map_cons, Item.text_plain hs item,
      itemTexts_plain hs rest]

theorem Item.text_plain (hs : s.bare = false) (item : Item) :
    s.name (item.plain s).text = s.name item.text := by
  match item with
  | .star => rfl
  | .tableStar table =>
    have htable : s.name (s.name table) = s.name table := (s.same_name table).symm
    simp only [Item.plain, Item.text, Spelling.name_append, htable]
  | .expr value none =>
    simp only [Item.plain, Item.text, Spelling.projected_of_kept hs, Spelling.name_append,
      Expr.text_plain hs value, Option.map_none]
  | .expr value (some aliasName) =>
    have halias : s.name (s.name aliasName) = s.name aliasName := (s.same_name aliasName).symm
    simp only [Item.plain, Item.text, Spelling.projected_of_kept hs, Spelling.name_append,
      Expr.text_plain hs value, Option.map_some, halias]

theorem sourceTexts_plain (hs : s.bare = false) (sources : List Source) :
    (sourceTexts (plainSources s sources)).map s.name = (sourceTexts sources).map s.name := by
  match sources with
  | [] => rfl
  | source :: rest =>
    simp only [plainSources, sourceTexts, List.map_cons, Source.text_plain hs source,
      sourceTexts_plain hs rest]

theorem Source.text_plain (hs : s.bare = false) (source : Source) :
    s.name (source.plain s).text = s.name source.text := by
  match source with
  | .table name none => exact (s.same_name name).symm
  | .table name (some aliasName) =>
    exact (((s.same_name name).append rfl).append (s.same_name aliasName)).symm
  | .derived query aliasName =>
    have halias : s.name (s.name aliasName) = s.name aliasName := (s.same_name aliasName).symm
    simp only [Source.plain, Source.text, Spelling.name_append, Select.text_plain hs query, halias]

theorem JoinCondition.text_plain (hs : s.bare = false) (condition : JoinCondition) :
    s.name (condition.plain s).text = s.name condition.text := by
  match condition with
  | .predicate e =>
    simp only [JoinCondition.plain, JoinCondition.text, Spelling.name_append, Expr.text_plain hs e]
  | .shared columns =>
    have hcolumns : (columns.map s.name).map s.name = columns.map s.name := by
      rw [List.map_map]
      exact List.map_congr_left fun column _ => (s.same_name column).symm
    simp only [JoinCondition.plain, JoinCondition.text, Spelling.name_append, commas,
      Spelling.name_intercalate, hcolumns]
  | .unconditional => rfl

theorem joinTexts_plain (hs : s.bare = false) (joins : List Join) :
    s.name (joinTexts (plainJoins s joins)) = s.name (joinTexts joins) := by
  match joins with
  | [] => rfl
  | ⟨kind, source, condition⟩ :: rest =>
    simp only [plainJoins, joinTexts, Join.text, Spelling.name_append, Source.text_plain hs source,
      JoinCondition.text_plain hs condition, joinTexts_plain hs rest]

theorem orderTexts_plain (hs : s.bare = false) (terms : List OrderTerm) :
    (orderTexts (plainOrder s terms)).map s.name = (orderTexts terms).map s.name := by
  match terms with
  | [] => rfl
  | ⟨value, descending⟩ :: rest =>
    simp only [plainOrder, orderTexts, List.map_cons, Spelling.name_append,
      Expr.text_plain hs value, orderTexts_plain hs rest]

theorem limitText_plain (hs : s.bare = false) (limit : Option Limit) :
    s.name (limitText (plainLimit s limit)) = s.name (limitText limit) := by
  match limit with
  | none => rfl
  | some ⟨count, offset⟩ =>
    simp only [plainLimit, limitText, Spelling.name_append, Expr.text_plain hs count,
      clauseText_plain hs offset]

end

/-- The text of an expression of which the parentheses are kept. -/
theorem Expr.text_kept (s : Spelling) (e : Expr) : s.Same e.text (e.plain s.kept).text :=
  (Expr.text_plain (s := s.kept) rfl e).symm

end

end QuerySignature
