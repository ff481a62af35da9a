import QuerySignature.Proofs.Pinned.Pins
import QuerySignature.Proofs.Placeholders.Marks
import QuerySignature.Proofs.Alike

namespace QuerySignature

/-! # What is written where

An INSERT writes rows into columns, place by place, an UPDATE single values. Which placeholder of the
text is the whole of what is written into a column can be read off the text and the schema.

- `Schema.insertedColumns`, `Schema.updatedColumn?`: the columns that are written, as they are declared.
- `Expr.writes`, `rowWrites`: the placeholders of a value and of a row, each with the column that it is
  written into, if it is the whole of a value.
- `Statement.writes`: the placeholders of an INSERT of values and of an UPDATE.
- `rowWrites_asked`: what the columns ask of the placeholders of a row.
-/

/-! ## Cells -/

/-- What stands at a place of a row: a column that a star stands for, or an expression. -/
inductive Cell where
  | column (c : SourceColumn)
  | value (e : Expr)

/-- The type of a literal; that of truth values and of NULL is open. -/
def Literal.type? (profile : Profile) : Literal → Option SqlType
  | .string _ => some profile.textType
  | .int _ => some profile.integerLiteralType
  | .float _ => some profile.floatLiteralType
  | .bool _ | .null => none

/-- The type of an expression that is a literal or a column of a table, through parentheses. -/
def Expr.type? (profile : Profile) (scope : Scope) (e : Expr) : Option SqlType :=
  match e.bare with
  | .literal value => value.type? profile
  | _ => (scope.columnOf? e).bind SourceColumn.declaredType?

/-- The placeholders of a value that is written into a column, each with the record of the column if it
is the whole value. -/
def Expr.writes (record : Option ColumnRecord) (e : Expr) : List (Option ColumnRecord) :=
  if e.isParameter then [record] else (e.marks false).map fun _ => none

namespace Cell

/-- Whether a cell is a placeholder, through parentheses. -/
def isParameter : Cell → Bool
  | column _ => false
  | value e => e.isParameter

/-- The type of a cell that is a literal or a column of a table. -/
def type? (profile : Profile) (scope : Scope) : Cell → Option SqlType
  | column c => c.declaredType?
  | value e => e.type? profile scope

/-- What the variable of a cell is made with, if nothing but what the cell is written into has a say
in its type. -/
def info? (profile : Profile) (scope : Scope) (cell : Cell) : Option TypeInfo :=
  if cell.isParameter then some .unknown else (cell.type? profile scope).map .exact

/-- A cell with a type of its own is no placeholder. -/
theorem info?_of_type? {profile : Profile} {scope : Scope} {cell : Cell} {type : SqlType}
    (h : cell.type? profile scope = some type) : cell.info? profile scope = some (.exact type) := by
  have hnot : ¬ cell.isParameter = true := by
    intro hparameter
    cases cell with
    | column c => cases hparameter
    | value e =>
      have hbare : e.isParameter = true := hparameter
      have htype : e.type? profile scope = some type := h
      unfold Expr.isParameter at hbare
      unfold Expr.type? Scope.columnOf? Expr.column? at htype
      split at hbare
      · next heq =>
        rw [heq] at htype
        cases htype
      · cases hbare
  unfold info?
  rw [if_neg hnot, h]
  rfl

/-- The placeholders of a cell. -/
def writes (record : Option ColumnRecord) : Cell → List (Option ColumnRecord)
  | column _ => []
  | value e => e.writes record

theorem writes_of_isParameter {cell : Cell} (h : cell.isParameter = true)
    (record : Option ColumnRecord) : cell.writes record = [record] := by
  cases cell with
  | column c => cases h
  | value e => exact if_pos h

theorem writes_of_not_isParameter {cell : Cell} (h : cell.isParameter = false)
    (record : Option ColumnRecord) :
    cell.writes record = List.replicate (cell.writes none).length none := by
  cases cell with
  | column c => rfl
  | value e =>
    have hnot : ¬ e.isParameter = true := Bool.eq_false_iff.1 h
    show e.writes record = List.replicate (e.writes none).length none
    unfold Expr.writes
    rw [if_neg hnot, if_neg hnot, List.length_map, List.map_const']

theorem mem_writes {cell : Cell} {written : Option ColumnRecord} {record : ColumnRecord} :
    some record ∈ cell.writes written ↔ some record = written ∧ cell.isParameter = true := by
  cases hparameter : cell.isParameter with
  | true =>
    rw [writes_of_isParameter hparameter, List.mem_singleton]
    exact ⟨fun heq => ⟨heq, rfl⟩, And.left⟩
  | false =>
    rw [writes_of_not_isParameter hparameter]
    refine ⟨fun hmem => ?_, nofun⟩
    cases List.eq_of_mem_replicate hmem

end Cell

/-- The placeholders of a row that is written into some columns. -/
def rowWrites : List (Option ColumnRecord) → List Cell → List (Option ColumnRecord)
  | _, [] => []
  | records, cell :: rest => cell.writes records.head?.join ++ rowWrites records.tail rest

/-- The columns that the bare placeholders of a row are written into. -/
theorem mem_rowWrites {records : List (Option ColumnRecord)} {cells : List Cell}
    {record : ColumnRecord} :
    some record ∈ rowWrites records cells ↔
      ∃ cell, (some record, cell) ∈ records.zip cells ∧ cell.isParameter = true := by
  induction cells generalizing records with
  | nil => simp [rowWrites]
  | cons first rest ih =>
    rw [rowWrites, List.mem_append, Cell.mem_writes, ih]
    cases records with
    | nil => simp
    | cons written records => simp [or_and_right, exists_or]

namespace Cell

/-- The placeholders of a cell; `asked` says whether its place asks them not to be null. -/
def marks (asked : Bool) : Cell → List Mark
  | column _ => []
  | value e => e.marks asked

theorem marks_of_isParameter {cell : Cell} (h : cell.isParameter = true) :
    ∃ entry, ∀ asked, cell.marks asked = [⟨entry, asked⟩] := by
  cases cell with
  | column c => cases h
  | value e => exact Expr.marks_of_isParameter h

theorem marks_of_not_isParameter {cell : Cell} (h : cell.isParameter = false) (asked : Bool) :
    cell.marks asked = cell.marks false := by
  cases cell with
  | column c => rfl
  | value e => exact Expr.marks_of_not_isParameter h asked

theorem length_writes (cell : Cell) : (cell.writes none).length = (cell.marks false).length := by
  cases cell with
  | column c => rfl
  | value e =>
    show (e.writes none).length = (e.marks false).length
    unfold Expr.writes
    split
    · next hparameter =>
      obtain ⟨entry, hmarks⟩ := Expr.marks_of_isParameter hparameter
      rw [hmarks]
      rfl
    · exact List.length_map _

end Cell

/-- The placeholders of a row that is written into some columns. A bare one is as nullable as its
column. -/
def rowMarks : List (Option ColumnRecord) → List Cell → List Mark
  | _, [] => []
  | records, cell :: rest =>
    cell.marks (records.head?.join.any (·.notNull)) ++ rowMarks records.tail rest

theorem rowMarks_nil (cells : List Cell) : rowMarks [] cells = cells.flatMap (Cell.marks false) := by
  induction cells with
  | nil => rfl
  | cons cell rest ih =>
    rw [List.flatMap_cons, ← ih]
    rfl

/-- Of placeholders that go to no column everything holds that may hold of columns. -/
theorem forall₂_none {α β : Type} {Good : ColumnRecord → β → Prop} {xs : List α} {ys : List β}
    (h : xs.length = ys.length) :
    List.Forall₂ (fun written y => ∀ record, written = some record → Good record y)
      (xs.map fun _ => none) ys := by
  refine List.forall₂_map_left_iff.2 (List.forall₂_iff_zip.2 ⟨h, fun _ record hrecord => ?_⟩)
  cases hrecord

/-! ## Statements -/

namespace Schema

/-- The columns that an INSERT writes: those it names, or all of the table. -/
def insertedColumns (schema : Schema) (table : String) (names : List String) :
    List (Option ColumnRecord) :=
  let records := (schema.columnsOf? (lastSegment table)).getD []
  if names.isEmpty then records.map some
  else names.map fun name => records.find? fun record => sameName record.column name

/-- The column that an UPDATE sets. -/
def updatedColumn? (schema : Schema) (table column : String) : Option ColumnRecord :=
  let target := ColumnRef.ofText column
  let records := (schema.columnsOf? (lastSegment table)).getD []
  records.find? fun record => sameName record.column target.name &&
    (target.qualifier.isEmpty || sameName record.table target.qualifier)

end Schema

/-- The placeholders of a statement, each with the column that it is written into as the whole of a
value. -/
def Statement.writes (schema : Schema) : Statement → List (Option ColumnRecord)
  | .insert table columns (.values rows) =>
    rows.flatMap fun row => rowWrites (schema.insertedColumns table columns) (row.map .value)
  | .update table assignments criteria =>
    assignments.flatMap (fun a => a.value.writes (schema.updatedColumn? table a.column)) ++
      (marksOfSome criteria).map fun _ => none
  | statement => (statement.marks schema).map fun _ => none

/-! ## Marks of what is written -/

/-- The place of a placeholder asks of it what its column does. -/
def AsksAs (record : Option ColumnRecord) (mark : Mark) : Prop :=
  ∀ column, record = some column → mark.notNull = column.notNull

theorem asksAs_none {α : Type} {xs : List α} {marks : List Mark} (h : xs.length = marks.length) :
    List.Forall₂ AsksAs (xs.map fun _ => none) marks :=
  forall₂_none h

theorem Expr.writes_asked (record : Option ColumnRecord) (e : Expr) :
    List.Forall₂ AsksAs (e.writes record) (e.marks (record.any (·.notNull))) := by
  unfold Expr.writes
  split
  case isTrue hparameter =>
    obtain ⟨entry, hmarks⟩ := Expr.marks_of_isParameter hparameter
    rw [hmarks]
    refine .cons ?_ .nil
    rintro column rfl
    rfl
  case isFalse hparameter =>
    rw [Expr.marks_of_not_isParameter (Bool.eq_false_iff.2 hparameter) (record.any (·.notNull))]
    exact asksAs_none rfl

/-- The placeholders of a row are asked as their columns are. -/
theorem rowWrites_asked (records : List (Option ColumnRecord)) (cells : List Cell) :
    List.Forall₂ AsksAs (rowWrites records cells) (rowMarks records cells) := by
  induction cells generalizing records with
  | nil => exact .nil
  | cons cell rest ih =>
    refine List.rel_append ?_ (ih records.tail)
    cases cell with
    | column c => exact .nil
    | value e => exact e.writes_asked _

/-- Where nothing is asked, they are left as they are. -/
theorem rowWrites_unasked (records : List (Option ColumnRecord)) (cells : List Cell) :
    List.Forall₂ (fun written mark => ∀ record, written = some record → mark.notNull = false)
      (rowWrites records cells) (cells.flatMap (Cell.marks false)) := by
  induction cells generalizing records with
  | nil => exact .nil
  | cons cell rest ih =>
    rw [List.flatMap_cons]
    refine List.rel_append ?_ (ih records.tail)
    cases hparameter : cell.isParameter with
    | true =>
      obtain ⟨entry, hmarks⟩ := Cell.marks_of_isParameter hparameter
      rw [Cell.writes_of_isParameter hparameter, hmarks]
      exact .cons (fun _ _ => rfl) .nil
    | false =>
      rw [Cell.writes_of_not_isParameter hparameter, Cell.length_writes, ← List.map_const']
      exact forall₂_none rfl

/-- The values of a row without a star are the cells of the row. -/
theorem rowMarks_values {row : List Expr} (hrow : ∀ e ∈ row, e.isStar = false)
    (records : List (Option ColumnRecord)) :
    marksOfAll (fun place => (records.map (·.any (·.notNull)))[place]?.getD false) row =
      rowMarks records (row.map .value) := by
  induction row generalizing records with
  | nil =>
    rw [marksOfAll]
    rfl
  | cons e rest ih =>
    obtain ⟨hstar, hrest⟩ := List.forall_mem_cons.1 hrow
    rw [marksOfAll, if_neg (by simp [hstar]), List.map_cons, rowMarks, ← ih hrest]
    cases records with
    | nil => rfl
    | cons record records => rfl

namespace Schema

theorem insertedNotNull_eq (schema : Schema) (table : String) (names : List String) :
    schema.insertedNotNull table names =
      (schema.insertedColumns table names).map (·.any (·.notNull)) := by
  unfold insertedNotNull insertedColumns
  dsimp only
  split
  · rw [List.map_map]
    rfl
  · rw [List.map_map]
    rfl

theorem updatedNotNull_eq (schema : Schema) (table column : String) :
    schema.updatedNotNull table column = (schema.updatedColumn? table column).any (·.notNull) :=
  rfl

end Schema

end QuerySignature
