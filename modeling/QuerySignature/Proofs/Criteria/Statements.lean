import QuerySignature.Proofs.Behind.Solved
import QuerySignature.Proofs.Criteria.KeyFilter
import QuerySignature.Proofs.Fragments.Labels
import QuerySignature.Proofs.Placeholders.Order
import QuerySignature.Proofs.Printed.Words
import QuerySignature.Proofs.Sources.Declared
import QuerySignature.Proofs.Sources.Place
import QuerySignature.Proofs.Sources.Star

namespace QuerySignature

/-! # Criteria of statements

A query, a DELETE and an UPDATE of one table read their WHERE in one scope, behind different things:
a star, nothing, an assignment. Neither a star over a table nor the assignment of NULL has
placeholders or can clash. So the three are refused for the same reasons, or else report the same of
the placeholders in their WHERE. Only the name in the assignment may be refused where the others are
not: it is cut at its last dot, and what stands before that is read as the name of a table.

- `TableRead`: what all three have read before the WHERE.
- `TableRead.selected`, `TableRead.deleted`, `TableRead.updated`: the placeholders of the criteria are
  reported as if nothing else were analysed.
- `parameters_of_criteria`: so they are reported alike.
-/

/-- What a description reports of the placeholders that no assignment has. -/
theorem describe_parameters (setting : Setting) (st : Statement) :
    (describe setting st).map (·.parameters) =
      ((inferStatement setting st).outcome .start).bind fun p =>
        (p.2.parameters setting.profile).map fun placeholders =>
          placeholders.drop (match st.kind with | .update => p.1.written | _ => 0) := by
  rw [describe_eq]
  cases (inferStatement setting st).outcome .start with
  | error e => rfl
  | ok p =>
    rw [ok_bind, ok_bind]
    unfold Run.parameters
    cases solve setting.profile p.2.constraints <;> rfl

/-! ## Steps that only make variables -/

/-- A step that makes so many variables and does nothing else. -/
def Analyze.Makes {α : Type} (step : Analyze α) (n : Nat) : Prop :=
  ∀ r, ∃ a, step.outcome r = .ok (a, { r with issued := r.issued + n })

namespace Analyze.Makes

variable {α β : Type} {step : Analyze α} {n : Nat}

theorem pure (a : α) : (pure a : Analyze α).Makes 0 := fun _ => ⟨a, rfl⟩

theorem fresh (label : String) (info : TypeInfo) : (fresh label info).Makes 1 := fun _ => ⟨_, rfl⟩

theorem bind {next : α → Analyze β} {m : Nat} (h : step.Makes n) (hnext : ∀ a, (next a).Makes m) :
    (step >>= next).Makes (n + m) := by
  intro r
  obtain ⟨a, ha⟩ := h r
  obtain ⟨b, hb⟩ := hnext a { r with issued := r.issued + n }
  refine ⟨b, ?_⟩
  rw [Analyze.outcome_bind, ha, ok_bind, hb, Nat.add_assoc]

theorem map (h : step.Makes n) (f : α → β) : (step >>= fun a => Pure.pure (f a)).Makes n :=
  h.bind fun a => .pure (f a)

theorem freshColumns (aliasName : String) (columns : List ColumnRecord) :
    (freshColumns aliasName columns).Makes columns.length := by
  induction columns with
  | nil => exact .pure []
  | cons record rest ih =>
    rw [List.length_cons, Nat.add_comm]
    exact (fresh record.column (.exact record.type)).bind fun _ => ih.map _

/-- A reference to a column of a table is a variable of its own. -/
theorem reference {c : SourceColumn} (hc : c.var.projected = false) : (reference c).Makes 1 := by
  unfold QuerySignature.reference
  rw [hc]
  exact fresh c.qualifiedName c.var.info

/-- A star over the columns of tables is a variable for each of them. -/
theorem star {level : Level} (hlevel : ∀ c ∈ level, c.var.projected = false) :
    (inferStar level).Makes level.length := by
  induction level with
  | nil => exact .pure []
  | cons c rest ih =>
    have hfirst : (inferStarColumn c).Makes 1 := (reference (hlevel c List.mem_cons_self)).map _
    rw [List.length_cons, Nat.add_comm]
    exact hfirst.bind fun _ => (ih fun d hd => hlevel d (List.mem_cons_of_mem _ hd)).map _

end Analyze.Makes

/-! ## One table -/

/-- The columns of one table are read: their variables are made, and nothing else. -/
structure TableRead (setting : Setting) (table : String) (columns : List ColumnRecord)
    (level : Level) : Prop where
  walk : (tableColumns setting.schema table none).outcome .start =
    .ok (level, { Run.start with issued := columns.length })
  declared : List.Forall₂ (SourceColumn.Declares "") columns level

/-- Where there are no common tables, the schema alone decides what a table is. -/
theorem outcome_tableColumns (schema : Schema) (table : String) :
    (tableColumns schema table none).outcome .start =
      match schema.columnsOf? (lastSegment table) with
      | some columns => (freshColumns "" columns).outcome .start
      | none => .error (.unknownTable (lastSegment table)) := by
  unfold tableColumns
  rw [Analyze.outcome_bind, Analyze.outcome_get, ok_bind]
  show (match schema.columnsOf? (lastSegment table) with
    | some columns => freshColumns "" columns
    | none => throw (.unknownTable (lastSegment table)) : Analyze Level).outcome .start = _
  cases schema.columnsOf? (lastSegment table) <;> rfl

theorem exists_tableRead {setting : Setting} {table : String} {columns : List ColumnRecord}
    (h : setting.schema.columnsOf? (lastSegment table) = some columns) :
    ∃ level, TableRead setting table columns level := by
  rcases Analyze.Makes.freshColumns "" columns .start with ⟨level, hlevel⟩
  have hissued : Run.start.issued + columns.length = columns.length := Nat.zero_add _
  have hwalk := outcome_tableColumns setting.schema table
  simp only [h] at hwalk
  rw [hlevel, hissued] at hwalk
  exact ⟨level, hwalk, declared_of_freshColumns hlevel⟩

/-! ## What stands before the criteria -/

/-- The assignment of NULL asks of a variable of which nothing is known that it have the type of the
column. -/
def nullAssigned (n : Nat) (target : SourceColumn) (text : String) : Constraint :=
  .strict text (.var ⟨n + 2, target.qualifiedName, target.var.info, false, false⟩)
    (.var ⟨n + 1, Literal.null.text, .unknown, false, false⟩)

theorem outcome_assignNull {setting : Setting} {scope : Scope} {column : String}
    {target : SourceColumn} (htarget : scope.resolve (.ofText column) = .ok target)
    (hplain : target.var.projected = false) (r : Run) :
    (inferAssignments setting scope [⟨column, .literal .null⟩]).outcome r = .ok ((), { r with
      issued := r.issued + 2
      constraints := r.constraints ++
        [nullAssigned r.issued target (Assignment.text ⟨column, .literal .null⟩)] }) := by
  have hresolve : resolve scope (.ofText column) = pure target := by
    unfold resolve
    rw [htarget]
  have hreference : reference target = fresh target.qualifiedName target.var.info := by
    unfold reference
    rw [hplain]
    rfl
  unfold inferAssignments inferExpr
  simp only [hresolve, pure_bind, hreference]
  rfl

theorem solve_nullAssigned_isOk (profile : Profile) (n : Nat) (target : SourceColumn) (text : String) :
    (solve profile [nullAssigned n target text]).isOk = true := by
  let initial : Nat → TypeInfo := fun id => if id = n + 2 then target.var.info else .unknown
  have hcarries : ∀ step ∈ equationsOf [nullAssigned n target text], step.Carries initial := by
    intro step hstep
    rw [List.mem_singleton.1 hstep]
    exact ⟨(if_pos rfl).symm, (if_neg (by simp)).symm⟩
  rw [(solve_alike profile hcarries).isOk_eq]
  -- the two variables are classes of their own, and that of NULL takes the type of the other
  show ((Classes.start initial).run profile [(nullAssigned n target text, _, _)]).isOk = true
  rw [Classes.run_cons]
  unfold Classes.merge
  simp only [nullAssigned, Constraint.strict, Classes.start, TypeInfo.merge?, initial, id_eq]
  rw [if_neg (by simp), if_neg (by simp : ¬ n + 1 = n + 2), TypeInfo.equate_unknown_right]
  rfl

theorem Run.Ready.of_nullAssigned (profile : Profile) (n : Nat) (target : SourceColumn)
    (text : String) :
    Run.Ready profile { Run.start with
      issued := n + 2
      constraints := [nullAssigned n target text] } := by
  refine ⟨fun step hstep => ?_, solve_nullAssigned_isOk profile n target text, rfl, rfl⟩
  rw [List.mem_singleton.1 hstep]
  exact ⟨Nat.le_refl _, Nat.le_succ _⟩

/-! ## Placeholders of the criteria -/

/-- A statement whose walk ends with its criteria, behind a run that takes no part in them. -/
theorem parameters_of_walk {setting : Setting} {st : Statement} {lead : Run}
    (hlead : lead.Ready setting.profile) {scope : Scope} (hscope : scope.Behind lead.issued scope)
    {criteria : Option Expr} {result : QueryResult} {last : Option Inferred × Run → Run}
    (hwalk : (inferStatement setting st).outcome .start =
      ((inferSome setting scope criteria).outcome lead).bind fun found =>
        .ok (⟨result, 0⟩, last found))
    (hlast : ∀ found, (last found).parameters setting.profile =
      found.2.parameters setting.profile) :
    (describe setting st).map (·.parameters) = criteriaParameters setting scope criteria := by
  rw [describe_parameters, hwalk, bind_bind, ← hlead.criteria hscope criteria]
  refine congrArg _ (funext fun found => ?_)
  have hwritten : (match st.kind with | .update => 0 | _ => 0) = 0 := by
    cases st.kind <;> rfl
  rw [ok_bind, hlast, hwritten]
  cases found.2.parameters setting.profile <;> rfl

/-- The branch of `SELECT * FROM table WHERE criteria`. -/
def rowsBranch (table : String) (criteria : Expr) : Branch :=
  ⟨false, [.star], [.table table none], [], some criteria, [], none⟩

/-- The walk over the query is that over its branch. -/
theorem outcome_readRows (setting : Setting) (table : String) (criteria : Expr) :
    ∃ result : Sources × List OutputColumn → QueryResult,
      (inferStatement setting (.select (readRows table criteria))).outcome .start =
        ((inferFront setting [] (rowsBranch table criteria)).outcome .start).bind fun front =>
          .ok (⟨result front.1, 0⟩, { front.2 with ctes := [] }) := by
  have hplain : (readRows table criteria).Plain (rowsBranch table criteria) := ⟨rfl, rfl, rfl, rfl⟩
  have hctes : (inferCtes setting [] (readRows table criteria).ctes).outcome .start =
      .ok ((), .start) := rfl
  refine ⟨fun front => .of ((rowsBranch table criteria).result [] front)
    ((rowsBranch table criteria).result [] front).columns [rowsBranch table criteria] [] none, ?_⟩
  rw [outcome_inferStatement, hplain.outcome, hctes, ok_bind, bind_bind]
  rfl

namespace TableRead

variable {setting : Setting} {table : String} {columns : List ColumnRecord} {level : Level}

theorem plain (h : TableRead setting table columns level) : ∀ c ∈ level, c.var.projected = false := by
  intro c hc
  rcases exists_partner h.declared hc with ⟨record, -, hdeclares⟩
  exact hdeclares.plain

/-- The columns of the table are the same behind any run. -/
theorem scopeBehind (h : TableRead setting table columns level) (n : Nat) :
    Scope.Behind n ⟨level, []⟩ ⟨level, []⟩ :=
  ⟨List.forall₂_same.2 fun c hc => .of_table n (h.plain c hc), .nil⟩

theorem deleted (h : TableRead setting table columns level) (criteria : Option Expr) :
    (describe setting (.delete table criteria)).map (·.parameters) =
      criteriaParameters setting ⟨level, []⟩ criteria := by
  have hwalk : (inferStatement setting (.delete table criteria)).outcome .start =
      ((inferSome setting ⟨level, []⟩ criteria).outcome
        { Run.start with issued := columns.length }).bind fun found =>
        .ok (.ofWrite 0, found.2) := by
    unfold inferStatement inferDelete
    simp only [Analyze.outcome_bind, h.walk, ok_bind, bind_bind]
    rfl
  exact parameters_of_walk (.of_issued ..) (h.scopeBehind _) hwalk fun _ => rfl

theorem updated (h : TableRead setting table columns level) {column : String}
    {target : SourceColumn} (hmem : target ∈ level)
    (htarget : Scope.resolve ⟨level, []⟩ (.ofText column) = .ok target) (criteria : Option Expr) :
    (describe setting (.update table [⟨column, .literal .null⟩] criteria)).map (·.parameters) =
      criteriaParameters setting ⟨level, []⟩ criteria := by
  have hwalk : (inferStatement setting (.update table [⟨column, .literal .null⟩] criteria)).outcome
      .start = ((inferSome setting ⟨level, []⟩ criteria).outcome { Run.start with
        issued := columns.length + 2
        constraints := [nullAssigned columns.length target
          (Assignment.text ⟨column, .literal .null⟩)] }).bind fun found =>
        .ok (.ofWrite 0, found.2) := by
    unfold inferStatement
    simp only [Analyze.outcome_bind, outcome_inferUpdate, h.walk, ok_bind, bind_bind,
      outcome_assignNull htarget (h.plain target hmem)]
    rfl
  exact parameters_of_walk (.of_nullAssigned ..) (h.scopeBehind _) hwalk fun _ => rfl

/-- Before its criteria, a query that reads the table has the star behind the columns. -/
theorem outcome_front (h : TableRead setting table columns level) (criteria : Expr) :
    ∃ front, (inferFront setting [] (rowsBranch table criteria)).outcome .start =
      ((inferSome setting ⟨level, []⟩ (some criteria)).outcome
        { Run.start with issued := columns.length + level.length }).bind fun found =>
          .ok (front, found.2) := by
  obtain ⟨outputs, hstar⟩ := Analyze.Makes.star h.plain { Run.start with issued := columns.length }
  have hsources : (inferSources setting .empty [.table table none]).outcome .start =
      .ok (Sources.empty.add (.table table none) level,
        { Run.start with issued := columns.length }) := by
    rw [outcome_inferSources_cons]
    unfold inferSource
    rw [h.walk]
    rfl
  have hjoins : ∀ joined previous r,
      (inferJoins setting [] joined previous []).outcome r = .ok (joined, r) := fun _ _ _ => rfl
  rw [← outcome_inferItems_star setting ⟨level, []⟩] at hstar
  refine ⟨(Sources.empty.add (.table table none) level, outputs), ?_⟩
  unfold rowsBranch
  rw [outcome_inferFront, hsources, ok_bind, hjoins, ok_bind]
  -- there are no placeholders to put behind those of the star
  show ((inferItems setting ⟨level, []⟩ [.star]).outcome
    { Run.start with issued := columns.length }).bind _ = _
  rw [hstar]
  rfl

theorem selected (h : TableRead setting table columns level) (criteria : Expr) :
    (describe setting (.select (readRows table criteria))).map (·.parameters) =
      criteriaParameters setting ⟨level, []⟩ (some criteria) := by
  obtain ⟨front, hfront⟩ := h.outcome_front criteria
  obtain ⟨result, hwalk⟩ := outcome_readRows setting table criteria
  simp only [hfront, bind_bind, ok_bind] at hwalk
  exact parameters_of_walk (.of_issued ..) (h.scopeBehind _) hwalk fun _ => rfl

end TableRead

/-! ## The column of the assignment -/

/-- Whether a reference may mean a declared column, when its table is the only one. -/
def ColumnRef.names (c : ColumnRef) (record : ColumnRecord) : Bool :=
  sameName record.column c.name && (c.qualifier.isEmpty || sameName record.table c.qualifier)

/-- In an assignment, the name is that of a column of the table, if the schema has the table. -/
def Schema.Assigns (schema : Schema) (table column : String) : Prop :=
  ∀ columns, schema.columnsOf? (lastSegment table) = some columns →
    ∃ record ∈ columns, (ColumnRef.ofText column).names record = true

/-- The name of a column is, unless there is a dot in it. -/
theorem Schema.assigns_of_not_mem {schema : Schema} {table column : String}
    (hcolumn : (schema.column? (lastSegment table) column).isSome = true)
    (hdot : '.' ∉ column.toList) : schema.Assigns table column := by
  intro columns hcolumns
  rw [Option.isSome_iff_exists] at hcolumn
  obtain ⟨record, hrecord⟩ := hcolumn
  unfold Schema.column? at hrecord
  rw [hcolumns, Option.bind_some] at hrecord
  refine ⟨record, List.mem_of_find?_eq_some hrecord, ?_⟩
  have hname : sameName record.column column = true := by simpa using List.find?_some hrecord
  rw [ofText_of_not_mem hdot]
  unfold ColumnRef.names
  rw [hname]
  rfl

theorem resolve_of_names {records columns : List ColumnRecord} {table : String}
    (hcolumns : (Schema.ofRecords records).columnsOf? table = some columns) {level : Level}
    (hdeclared : List.Forall₂ (SourceColumn.Declares "") columns level) {c : ColumnRef}
    (hnames : ∃ record ∈ columns, c.names record = true) :
    ∃ target ∈ level, Scope.resolve ⟨level, []⟩ c = .ok target := by
  -- all records of a table are filed under one name, which all its columns are visible by
  have hvisible : ∀ d ∈ level, sameName d.visibleTable table = true := by
    intro d hd
    obtain ⟨record, hrecord, hdeclares⟩ := exists_partner hdeclared hd
    unfold SourceColumn.visibleTable
    rw [hdeclares.aliasName, hdeclares.table]
    exact Schema.table_of_columnsOf? hcolumns hrecord
  obtain ⟨record, hrecord, hnames⟩ := hnames
  obtain ⟨d, hd, hdeclares⟩ := exists_partner hdeclared.flip hrecord
  have hmeant : d ∈ level.answers c := by
    refine List.mem_filter.2 ⟨hd, ?_⟩
    unfold SourceColumn.answers SourceColumn.isOf SourceColumn.visibleTable
    rw [hdeclares.name, hdeclares.aliasName, hdeclares.table]
    exact hnames
  obtain ⟨target, htarget, hmeaning⟩ := exists_resolveIn hmeant
    (fun e he f hf => sameAs_of_answers (fun d hd => hvisible d (List.mem_of_mem_filter hd)) he hf) []
  exact ⟨target, htarget, resolve_of_resolveIn hmeaning⟩

/-! ## One report -/

theorem parameters_of_failed_walk {setting : Setting} {st : Statement} {e : AnalysisError}
    (h : (inferStatement setting st).outcome .start = .error e) :
    (describe setting st).map (·.parameters) = .error e := by
  rw [describe_parameters, h]
  rfl

/-- A statement of a table that the schema does not have is refused for that. -/
theorem parameters_of_unknownTable {setting : Setting} {table : String}
    (h : setting.schema.columnsOf? (lastSegment table) = none) (assignments : List Assignment)
    (criteria : Expr) :
    let refused := Except.error (AnalysisError.unknownTable (lastSegment table))
    (describe setting (.select (readRows table criteria))).map (·.parameters) = refused ∧
      (describe setting (.delete table (some criteria))).map (·.parameters) = refused ∧
      (describe setting (.update table assignments (some criteria))).map (·.parameters) =
        refused := by
  intro refused
  have htable : (tableColumns setting.schema table none).outcome .start =
      .error (.unknownTable (lastSegment table)) := by
    have hwalk := outcome_tableColumns setting.schema table
    simp only [h] at hwalk
    exact hwalk
  -- each walk reads the table before anything else
  refine ⟨parameters_of_failed_walk ?_, parameters_of_failed_walk ?_, parameters_of_failed_walk ?_⟩
  · obtain ⟨result, hwalk⟩ := outcome_readRows setting table criteria
    unfold rowsBranch at hwalk
    rw [hwalk, outcome_inferFront, outcome_inferSources_cons]
    unfold inferSource
    rw [htable]
    rfl
  · unfold inferStatement inferDelete
    rw [Analyze.outcome_bind, Analyze.outcome_bind, htable]
    rfl
  · unfold inferStatement
    rw [Analyze.outcome_bind, outcome_inferUpdate, htable]
    rfl

/-- DELETE and UPDATE report the placeholders of a WHERE as a query of the same table does, or are
refused for the same reason. -/
theorem parameters_of_criteria (records : List ColumnRecord) (profile : Profile) {table column : String}
    (hcolumn : (Schema.ofRecords records).Assigns table column) (criteria : Expr) :
    let setting : Setting := ⟨.ofRecords records, profile⟩
    let selected := (describe setting (.select (readRows table criteria))).map (·.parameters)
    (describe setting (.delete table (some criteria))).map (·.parameters) = selected ∧
      (describe setting (.update table [⟨column, .literal .null⟩] (some criteria))).map
        (·.parameters) = selected := by
  intro setting selected
  cases hcolumns : setting.schema.columnsOf? (lastSegment table) with
  | none =>
    rcases parameters_of_unknownTable hcolumns [⟨column, .literal .null⟩] criteria with
      ⟨hselected, hdeleted, hupdated⟩
    exact ⟨hdeleted.trans hselected.symm, hupdated.trans hselected.symm⟩
  | some columns =>
    rcases exists_tableRead hcolumns with ⟨level, hread⟩
    rcases resolve_of_names hcolumns hread.declared (hcolumn columns hcolumns) with
      ⟨target, hmem, htarget⟩
    have hselected := hread.selected criteria
    exact ⟨(hread.deleted _).trans hselected.symm,
      (hread.updated hmem htarget _).trans hselected.symm⟩

/-! ## A name with a dot -/

/-- A table with a dot in the name of a column. -/
def dottedNotes : List ColumnRecord :=
  [⟨"notes", "id", .int, .primary, true⟩, ⟨"notes", "author.id", .int, .plain, false⟩,
    ⟨"notes", "text", .varchar, .plain, false⟩]

/-- `id = ? AND text IN (:texts)`. -/
def namedNotes : Expr :=
  .and (.compare .eq (.column ⟨none, "id"⟩) (.parameter none))
    (.inList false (.column ⟨none, "text"⟩) [.parameter (some "texts")])

theorem parameters_of_criteria_namedNotes :
    (Schema.ofRecords dottedNotes).Assigns "notes" "text" ∧
      let setting : Setting := ⟨.ofRecords dottedNotes, .mysql⟩
      let selected := (describe setting (.select (readRows "notes" namedNotes))).map (·.parameters)
      selected = .ok [⟨"param1", .int, true, false⟩, ⟨"texts", .varchar, true, true⟩] ∧
        (describe setting (.delete "notes" (some namedNotes))).map (·.parameters) = selected ∧
        (describe setting (.update "notes" [⟨"text", .literal .null⟩] (some namedNotes))).map
          (·.parameters) = selected := by
  have hcolumn : (Schema.ofRecords dottedNotes).Assigns "notes" "text" :=
    Schema.assigns_of_not_mem (by decide +kernel) (by decide)
  exact ⟨hcolumn, by decide +kernel, parameters_of_criteria dottedNotes .mysql hcolumn namedNotes⟩

/-- In an assignment, what stands before the dot is read as the name of a table. -/
theorem dotted_column_not_written :
    let setting : Setting := ⟨.ofRecords dottedNotes, .mysql⟩
    let parameters := Except.ok [⟨"param1", .int, true, false⟩, ⟨"texts", .varchar, true, true⟩]
    (setting.schema.column? "notes" "author.id").isSome = true ∧
      (describe setting (.select (readRows "notes" namedNotes))).map (·.parameters) = parameters ∧
      (describe setting (.delete "notes" (some namedNotes))).map (·.parameters) = parameters ∧
      (describe setting (.update "notes" [⟨"author.id", .literal .null⟩] (some namedNotes))).map
        (·.parameters) = .error (.unknownTable "author") := by
  refine ⟨?_, ?_, ?_, ?_⟩ <;> decide +kernel

end QuerySignature
