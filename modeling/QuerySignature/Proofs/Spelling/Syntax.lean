import QuerySignature.Syntax.Basic
import QuerySignature.Text.Caseless

namespace QuerySignature

/-! # Spellings

A statement can be written in several ways that mean the same: names in upper or lower case, an
expression with parentheses around it or without. A spelling says which of these differences are left
out of account, and brings a statement into a plain form in which they are gone. Two statements that
differ in nothing else have one plain form.

Names are compared without regard to case, so no comparison tells a name from another one of its plain
form. A text that is put together from others has the plain form that is put together from theirs.

- `Spelling.name`: a name in its plain form.
- `Expr.plain`, `Select.plain`, `Statement.plain`: the plain form of an expression, of a query and of a
  statement.
- `Spelling.same_name`: a name has the plain form of its plain form.
- `Spelling.Same.sameName`, `Spelling.Same.isEmpty`: what a walk asks of a name.
- `Spelling.name_append`: the plain form of two texts in a row.
- `Spelling.lastSegment_name`, `Spelling.ofText_name`: dotted names are cut at the same place.
-/

/-- What of the way in which a statement is written is left out of account. -/
structure Spelling where
  /-- The case of `A` to `Z` in names. -/
  caseless : Bool
  /-- Parentheses that neither change what an expression is nor stand in a text that is a name. -/
  bare : Bool

namespace Spelling

/-- A name in its plain form. -/
def name (s : Spelling) (a : String) : String := if s.caseless then lowerName a else a

/-- The names of one plain form. -/
def Same (s : Spelling) (a b : String) : Prop := s.name a = s.name b

/-- The spelling of which no parentheses are left out of account. -/
def kept (s : Spelling) : Spelling := { s with bare := false }

end Spelling

/-! ## Expressions and queries -/

/-- A reference in its plain form. -/
def ColumnRef.plain (s : Spelling) (c : ColumnRef) : ColumnRef := ⟨c.table.map s.name, s.name c.name⟩

/-- A plain expression that stands in parentheses. They stay around a star, which only without them
stands for all rows. -/
def Spelling.paren (s : Spelling) (e : Expr) : Expr := if s.bare && !e.isStar then e else .paren e

/-- The plain items of an IN list. A placeholder in parentheses keeps them where it is the only item:
without them it stands for the whole list. -/
def plainList (items plain : List Expr) : List Expr :=
  match items, plain with
  | [.paren _], [.parameter name] => [.paren (.parameter name)]
  | _, plain => plain

/-- The spelling of a projected expression. Where its text is its name, its parentheses stay. -/
def Spelling.projected (s : Spelling) (value : Expr) (aliasName : Option String) : Spelling :=
  if aliasName.isNone && value.column?.isNone then s.kept else s

mutual

/-- An expression in its plain form. -/
def Expr.plain (s : Spelling) : Expr → Expr
  | .literal value => .literal value
  | .column c => .column (c.plain s)
  | .parameter name => .parameter name
  | .arithmetic op left right => .arithmetic op (left.plain s) (right.plain s)
  | .compare op left right => .compare op (left.plain s) (right.plain s)
  | .between negated value low high =>
    .between negated (value.plain s) (low.plain s) (high.plain s)
  | .inList negated value items =>
    .inList negated (value.plain s) (plainList items (plainAll s items))
  | .inQuery negated value query => .inQuery negated (value.plain s) (query.plain s)
  | .like negated value pattern => .like negated (value.plain s) (pattern.plain s)
  | .isNull negated value => .isNull negated (value.plain s)
  | .and left right => .and (left.plain s) (right.plain s)
  | .or left right => .or (left.plain s) (right.plain s)
  | .not operand => .not (operand.plain s)
  | .call function distinct arguments => .call (s.name function) distinct (plainAll s arguments)
  | .case operand branches otherwise =>
    .case (plainSome s operand) (plainWhens s branches) (plainSome s otherwise)
  | .scalar query => .scalar (query.plain s)
  | .hasRows query => .hasRows (query.plain s)
  | .paren inner => s.paren (inner.plain s)
  | .star => .star

/-- Expressions in their plain forms. -/
def plainAll (s : Spelling) : List Expr → List Expr
  | [] => []
  | e :: rest => e.plain s :: plainAll s rest

/-- An expression that may be missing, in its plain form. -/
def plainSome (s : Spelling) : Option Expr → Option Expr
  | none => none
  | some e => some (e.plain s)

/-- The branches of a CASE in their plain forms. -/
def plainWhens (s : Spelling) : List WhenThen → List WhenThen
  | [] => []
  | ⟨condition, result⟩ :: rest => ⟨condition.plain s, result.plain s⟩ :: plainWhens s rest

/-- A query in its plain form. -/
def Select.plain (s : Spelling) : Select → Select
  | ⟨ctes, branches, order, limit⟩ =>
    ⟨plainCtes s ctes, plainUnion s branches, plainOrder s order, plainLimit s limit⟩

/-- Common tables in their plain forms. -/
def plainCtes (s : Spelling) : List Cte → List Cte
  | [] => []
  | ⟨name, query⟩ :: rest => ⟨s.name name, query.plain s⟩ :: plainCtes s rest

/-- The branches of a query in their plain forms. -/
def plainUnion (s : Spelling) : List Branch → List Branch
  | [] => []
  | branch :: rest => branch.plain s :: plainUnion s rest

/-- A branch in its plain form. -/
def Branch.plain (s : Spelling) : Branch → Branch
  | ⟨distinct, items, sources, joins, criteria, group, having⟩ =>
    ⟨distinct, plainItems s items, plainSources s sources, plainJoins s joins, plainSome s criteria,
      plainAll s group, plainSome s having⟩

/-- The items of a projection in their plain forms. -/
def plainItems (s : Spelling) : List Item → List Item
  | [] => []
  | item :: rest => item.plain s :: plainItems s rest

/-- An item of a projection in its plain form. -/
def Item.plain (s : Spelling) : Item → Item
  | .star => .star
  | .tableStar table => .tableStar (s.name table)
  | .expr value aliasName => .expr (value.plain (s.projected value aliasName)) (aliasName.map s.name)

/-- The sources of a FROM clause in their plain forms. -/
def plainSources (s : Spelling) : List Source → List Source
  | [] => []
  | source :: rest => source.plain s :: plainSources s rest

/-- A source in its plain form. -/
def Source.plain (s : Spelling) : Source → Source
  | .table name aliasName => .table (s.name name) (aliasName.map s.name)
  | .derived query aliasName => .derived (query.plain s) (s.name aliasName)

/-- Joins in their plain forms. -/
def plainJoins (s : Spelling) : List Join → List Join
  | [] => []
  | ⟨kind, source, condition⟩ :: rest =>
    ⟨kind, source.plain s, condition.plain s⟩ :: plainJoins s rest

/-- The condition of a join in its plain form. -/
def JoinCondition.plain (s : Spelling) : JoinCondition → JoinCondition
  | .predicate condition => .predicate (condition.plain s)
  | .shared columns => .shared (columns.map s.name)
  | .unconditional => .unconditional

/-- The terms of an ORDER BY in their plain forms. -/
def plainOrder (s : Spelling) : List OrderTerm → List OrderTerm
  | [] => []
  | ⟨value, descending⟩ :: rest => ⟨value.plain s, descending⟩ :: plainOrder s rest

/-- A limit in its plain form. -/
def plainLimit (s : Spelling) : Option Limit → Option Limit
  | none => none
  | some ⟨count, offset⟩ => some ⟨count.plain s, plainSome s offset⟩

end

/-! ## Statements -/

/-- What an INSERT writes, in its plain form. -/
def InsertRows.plain (s : Spelling) : InsertRows → InsertRows
  | .values rows => .values (rows.map (plainAll s))
  | .query select => .query (select.plain s)

/-- An assignment in its plain form. -/
def Assignment.plain (s : Spelling) (a : Assignment) : Assignment :=
  ⟨s.name a.column, a.value.plain s⟩

/-- A statement in its plain form. -/
def Statement.plain (s : Spelling) : Statement → Statement
  | .select query => .select (query.plain s)
  | .insert table columns rows => .insert (s.name table) (columns.map s.name) (rows.plain s)
  | .update table assignments criteria =>
    .update (s.name table) (assignments.map (Assignment.plain s)) (plainSome s criteria)
  | .delete table criteria => .delete (s.name table) (plainSome s criteria)

/-! ## Names -/

namespace Spelling

variable {s : Spelling} {a b c d : String}

theorem name_of_caseless (hs : s.caseless = true) (a : String) : s.name a = lowerName a := by
  rw [name, hs, if_pos rfl]

theorem name_of_exact (hs : s.caseless = false) (a : String) : s.name a = a := by
  rw [name, hs]
  rfl

/-- A name and its plain form are one name. -/
theorem sameName_name (s : Spelling) (a : String) : sameName a (s.name a) = true := by
  cases hs : s.caseless with
  | true =>
    rw [name_of_caseless hs, sameName_iff]
    exact (foldCase_lowerName a).symm
  | false =>
    rw [name_of_exact hs]
    exact sameName_refl a

theorem same_name (s : Spelling) (a : String) : s.Same a (s.name a) := by
  unfold Same
  cases hs : s.caseless with
  | true =>
    rw [name_of_caseless hs, name_of_caseless hs, lowerName_eq_iff]
    exact sameName_iff.2 (foldCase_lowerName a).symm
  | false => rw [name_of_exact hs, name_of_exact hs]

namespace Same

theorem refl (s : Spelling) (a : String) : s.Same a a := rfl

theorem symm (h : s.Same a b) : s.Same b a := Eq.symm h

theorem trans (h : s.Same a b) (h' : s.Same b c) : s.Same a c := Eq.trans h h'

theorem sameName (h : s.Same a b) : QuerySignature.sameName a b = true :=
  sameName_trans (s.sameName_name a) (h ▸ sameName_symm (s.sameName_name b))

/-- Where case counts, names of one plain form are equal. -/
theorem eq (h : s.Same a b) (hs : s.caseless = false) : b = a := by
  rw [Same, name_of_exact hs, name_of_exact hs] at h
  exact h.symm

theorem isEmpty (h : s.Same a b) : b.isEmpty = a.isEmpty := (isEmpty_of_sameName h.sameName).symm

/-- No comparison of names tells them from others of their plain forms. -/
theorem compared (h : s.Same a b) (h' : s.Same c d) :
    QuerySignature.sameName b d = QuerySignature.sameName a c :=
  (sameName_congr h.sameName h'.sameName).symm

end Same

/-! ## Texts -/

theorem name_append (s : Spelling) (a b : String) : s.name (a ++ b) = s.name a ++ s.name b := by
  cases hs : s.caseless with
  | true => rw [name_of_caseless hs, name_of_caseless hs, name_of_caseless hs, lowerName_append]
  | false => rw [name_of_exact hs, name_of_exact hs, name_of_exact hs]

theorem Same.append (h : s.Same a b) (h' : s.Same c d) : s.Same (a ++ c) (b ++ d) := by
  unfold Same at h h' ⊢
  rw [name_append, name_append, h, h']

/-! ## Dotted names -/

theorem cutAtLastDot?_toLower (cs : List Char) :
    cutAtLastDot? (cs.map Char.toLower) =
      (cutAtLastDot? cs).map fun parts => (parts.1.map Char.toLower, parts.2.map Char.toLower) :=
  cutAtLastDot?_map toLower_eq_dot_iff cs

theorem lastSegment_lowerName (a : String) : lastSegment (lowerName a) = lowerName (lastSegment a) := by
  unfold lastSegment lastSegmentChars lowerName foldCase
  rw [String.toList_ofList, String.toList_ofList, cutAtLastDot?_toLower]
  cases cutAtLastDot? a.toList <;> rfl

theorem qualified?_lowerName (a : String) :
    qualified? (lowerName a) =
      (qualified? a).map fun parts => (lowerName parts.1, lowerName parts.2) := by
  unfold qualified? lowerName foldCase
  rw [String.toList_ofList, cutAtLastDot?_toLower]
  cases cutAtLastDot? a.toList with
  | none => rfl
  | some parts => simp

theorem lastSegment_name (s : Spelling) (a : String) :
    lastSegment (s.name a) = s.name (lastSegment a) := by
  cases hs : s.caseless with
  | true => rw [name_of_caseless hs, name_of_caseless hs, lastSegment_lowerName]
  | false => rw [name_of_exact hs, name_of_exact hs]

/-- A reference that is written as one text. -/
theorem ofText_name (s : Spelling) (a : String) :
    ColumnRef.ofText (s.name a) = (ColumnRef.ofText a).plain s := by
  have hqualified : qualified? (s.name a) =
      (qualified? a).map fun parts => (s.name parts.1, s.name parts.2) := by
    cases hs : s.caseless with
    | true => simp only [name_of_caseless hs, qualified?_lowerName]
    | false => simp [name_of_exact hs]
  unfold ColumnRef.ofText
  rw [hqualified]
  cases qualified? a with
  | none => rfl
  | some parts => simp [ColumnRef.plain, lastSegment_name]

theorem qualifier_plain (s : Spelling) (c : ColumnRef) :
    s.Same c.qualifier (c.plain s).qualifier := by
  unfold ColumnRef.qualifier ColumnRef.plain
  cases c.table with
  | none => exact Same.refl s ""
  | some table => exact s.same_name table

end Spelling

/-! ## Sources -/

theorem Source.visibleName_plain (s : Spelling) (x : Source) :
    (x.plain s).visibleName = s.name x.visibleName := by
  cases x with
  | derived q aliasName => rfl
  | table name aliasName =>
    cases aliasName with
    | none => exact s.lastSegment_name name
    | some aliasName => rfl

end QuerySignature
