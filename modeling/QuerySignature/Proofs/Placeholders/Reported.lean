import QuerySignature.Proofs.Pinned.Local
import QuerySignature.Proofs.Placeholders.Nullability
import QuerySignature.Proofs.Placeholders.Order
import QuerySignature.Proofs.Sources.Declared

namespace QuerySignature

/-! # The reported nullability of placeholders

A described placeholder is not null exactly if the place in which it stands in the text says so, be it
at any depth of a query, a join, a filter or a value that is written.

- `Leads.rows`, `Leads.assignments`: a written value is as nullable as its column.
- `types_of_described`: the types of the placeholders are those of their variables.
- `describe_notNull`: a description marks the placeholders as the text does.
-/

/-! ## Columns that are written -/

/-- The first column of a name is declared as the first record of this name. -/
theorem notNull_of_find? {records : List ColumnRecord} {all : Level}
    (hall : List.Forall₂ (SourceColumn.Declares "") records all) {name : String}
    {target : SourceColumn}
    (h : all.find? (fun column => sameName column.name name) = some target) :
    target.notNull =
      (records.find? fun record => sameName record.column name).any (·.notNull) := by
  have hrel := rel_find? (R := SourceColumn.Declares "")
    (p := fun record => sameName record.column name) (q := fun column => sameName column.name name)
    (fun record column hdeclares => by rw [hdeclares.name]) hall
  rw [h] at hrel
  generalize records.find? (fun record => sameName record.column name) = found at hrel
  cases hrel with
  | some hdeclares => exact hdeclares.notNull

/-- The columns that an INSERT writes are declared as the schema says. -/
theorem notNull_of_targetColumns {schema : Schema} {table : String} {records : List ColumnRecord}
    {all targets : Level} (hrecords : schema.columnsOf? (lastSegment table) = some records)
    (hall : List.Forall₂ (SourceColumn.Declares "") records all) {names : List String}
    (h : targetColumns all names = .ok targets) :
    targets.map (·.notNull) = schema.insertedNotNull table names := by
  have htargets := targetColumns_eq_ok h
  unfold Schema.insertedNotNull
  rw [hrecords, Option.getD_some]
  dsimp only
  split at htargets
  case isTrue hempty =>
    -- without names, all columns of the table are written
    rw [if_pos hempty, htargets]
    exact map_eq_of_rel hall fun _ _ hdeclares => hdeclares.notNull
  case isFalse hempty =>
    rw [if_neg hempty]
    exact map_eq_of_rel htargets fun _ _ hfound => notNull_of_find? hall hfound

/-- The column that an UPDATE sets is declared as the schema says. -/
theorem notNull_of_resolve {schema : Schema} {table : String} {records : List ColumnRecord}
    {level : Level} (hrecords : schema.columnsOf? (lastSegment table) = some records)
    (hlevel : List.Forall₂ (SourceColumn.Declares "") records level) {name : String}
    {column : SourceColumn} (h : Scope.resolve ⟨level, []⟩ (.ofText name) = .ok column) :
    column.notNull = schema.updatedNotNull table name := by
  obtain ⟨record, hrecord, hdeclares⟩ := declared_of_resolve hlevel h
  unfold Schema.updatedNotNull
  rw [hrecords, Option.getD_some]
  dsimp only
  rw [hrecord]
  exact hdeclares.notNull

namespace Leads

variable {m : List Mark} {setting : Setting}

/-! ## Values that are written -/

/-- Values are as nullable as the columns they go to. -/
theorem written {es : List Expr} {as : List Inferred} (h : PlacedAll m.length es as)
    (targets : Level) :
    Leads (m ++ marksOfAll (fun _ => false) es)
      (bindTargets targets (as.map fun a => ⟨a.var, a.placeholder⟩))
      (m ++ marksOfAll (fun place => (targets.map (·.notNull))[place]?.getD false) es)
      fun _ => True := by
  generalize hn : m.length = n at h
  induction h generalizing m targets with
  | nil => cases targets <;> exact quiet (Quiet.pure _)
  | star hstar _ ih =>
    rw [marksOfAll, if_pos hstar, marksOfAll, if_pos hstar]
    exact ih targets hn
  | @cons _ e es _ _ hstar hplaced _ ih =>
    subst hn
    cases targets with
    | nil => exact quiet (Quiet.pure _)
    | cons target targets =>
      rw [marksOfAll, if_neg (by simp [hstar]), marksOfAll, if_neg (by simp [hstar]),
        ← List.append_assoc, ← List.append_assoc]
      refine of_quiet (Quiet.kept.reference _) fun _ => ?_
      refine (matchNull hplaced _ target).bind fun _ _ => ?_
      refine (ih targets ?_).bind fun _ _ => pure trivial
      rw [List.length_append, e.length_marks]

theorem rows (targets : Level) (rows : List (List Expr)) (m : List Mark) :
    Leads m (inferRows setting targets rows)
      (m ++ rows.flatMap
        (marksOfAll fun place => (targets.map (·.notNull))[place]?.getD false))
      fun _ => True := by
  induction rows generalizing m with
  | nil => exact (pure trivial).congr rfl (by simp)
  | cons row rest ih =>
    unfold inferRows
    split
    · intro r a s _ hrun
      cases hrun
    · refine (all setting .empty row m).bind fun as has => ?_
      have hrow : Leads (m ++ marksOfAll (fun _ => false) row)
          (bindRow (rowText row) targets (as.map fun a => ⟨a.var, a.placeholder⟩))
          (m ++ marksOfAll (fun place => (targets.map (·.notNull))[place]?.getD false) row)
          fun _ => True :=
        (written has targets).bind fun _ _ => quiet (Quiet.demand _)
      refine hrow.bind fun _ _ => ?_
      exact (ih _).congr rfl (by simp)

theorem assignments {schema : Schema} {table : String} {records : List ColumnRecord} {level : Level}
    (hrecords : schema.columnsOf? (lastSegment table) = some records)
    (hlevel : List.Forall₂ (SourceColumn.Declares "") records level) (as : List Assignment)
    (m : List Mark) :
    Leads m (inferAssignments setting ⟨level, []⟩ as)
      (m ++ as.flatMap fun a => a.value.marks (schema.updatedNotNull table a.column))
      fun _ => True := by
  induction as generalizing m with
  | nil => exact (pure trivial).congr rfl (by simp)
  | cons a rest ih =>
    have htarget : Leads m (resolve ⟨level, []⟩ (.ofText a.column)) m
        fun target => target.notNull = schema.updatedNotNull table a.column := by
      refine (quiet (Quiet.kept.resolve _ _)).also fun r target s _ hrun => ?_
      unfold resolve at hrun
      cases hmeaning : Scope.resolve ⟨level, []⟩ (.ofText a.column) with
      | error e =>
        rw [hmeaning] at hrun
        cases hrun
      | ok column =>
        rw [hmeaning] at hrun
        cases hrun
        exact notNull_of_resolve hrecords hlevel hmeaning
    refine htarget.bind fun target htarget => ?_
    refine (expr setting ⟨level, []⟩ a.value m).bind fun value hvalue => ?_
    refine of_quiet (Quiet.kept.reference _) fun _ => of_quiet (Quiet.demand _) fun _ => ?_
    have hmatch : Leads (m ++ a.value.marks false) (QuerySignature.matchNull value.placeholder target)
        (m ++ a.value.marks (schema.updatedNotNull table a.column)) fun _ => True := by
      rw [← htarget]
      simpa using matchNull hvalue [] target
    refine hmatch.bind fun _ _ => ?_
    exact (ih _).congr rfl (by simp)

end Leads

/-! ## Statements -/

/-- In a run without common tables, a table has the columns that the schema declares. -/
theorem declared_of_start {schema : Schema} {table : String} {level : Level} {s : Run}
    (h : (tableColumns schema table none).outcome .start = .ok (level, s)) :
    s.marks = [] ∧ ∃ records, schema.columnsOf? (lastSegment table) = some records ∧
      List.Forall₂ (SourceColumn.Declares "") records level :=
  ⟨(Leads.quiet (Quiet.kept.tableColumns schema table none) _ _ _ rfl h).1, declared_of_table rfl h⟩

theorem marks_of_insert {setting : Setting} {table : String} {columns : List String}
    {rows : List (List Expr)} {last : Run}
    (h : (inferInsert setting table columns (.values rows)).outcome .start = .ok ((), last)) :
    last.marks = (Statement.insert table columns (.values rows)).marks setting.schema := by
  obtain ⟨all, read, targets, htable, htargets, hvalues, -⟩ := targets_of_insert h
  obtain ⟨hmarks, records, hrecords, hall⟩ := declared_of_start htable
  have hnotNull : targets.map (·.notNull) = setting.schema.insertedNotNull table columns :=
    notNull_of_targetColumns hrecords hall htargets
  have hrows := (Leads.rows targets rows _ _ _ _ hmarks (hvalues rows rfl)).1
  rw [hnotNull] at hrows
  exact hrows

theorem marks_of_update {setting : Setting} {table : String} {assignments : List Assignment}
    {criteria : Option Expr} {written : Nat} {last : Run}
    (h : (inferUpdate setting table assignments criteria).outcome .start = .ok (written, last)) :
    last.marks = (Statement.update table assignments criteria).marks setting.schema := by
  obtain ⟨level, read, assigned, found, htable, hassignments, hcriteria, -⟩ := clauses_of_update h
  obtain ⟨hmarks, records, hrecords, hlevel⟩ := declared_of_start htable
  have hassigned := (Leads.assignments hrecords hlevel assignments _ _ _ _ hmarks hassignments).1
  exact (Leads.option setting ⟨level, []⟩ criteria _ _ _ _ hassigned hcriteria).1

theorem marks_of_delete {setting : Setting} {table : String} {criteria : Option Expr} {last : Run}
    (h : (inferDelete setting table criteria).outcome .start = .ok ((), last)) :
    last.marks = (Statement.delete table criteria).marks setting.schema := by
  obtain ⟨level, read, found, htable, hcriteria⟩ := clauses_of_delete h
  exact (Leads.option setting ⟨level, []⟩ criteria _ _ _ _ (declared_of_start htable).1 hcriteria).1

/-- The walk over a statement marks the placeholders as the text does. -/
theorem marks_of_statement {setting : Setting} {s : Statement} (hs : s.writesQuery = false)
    {analysis : Analysis} {run : Run}
    (h : (inferStatement setting s).outcome .start = .ok (analysis, run)) :
    run.marks = s.marks setting.schema := by
  cases s with
  | select q =>
    obtain ⟨result, hwalk, -⟩ := walk_of_select h
    exact (Leads.query setting [] q [] _ _ _ rfl hwalk).1
  | insert table columns rows =>
    cases rows with
    | query q => cases hs
    | values rows => exact marks_of_insert (walk_of_insert h).1
  | update table assignments criteria =>
    obtain ⟨written, hwalk, -⟩ := walk_of_update h
    exact marks_of_update hwalk
  | delete table criteria => exact marks_of_delete (walk_of_delete h).1

/-! ## Descriptions -/

/-- The run that the walk over a statement ends in. -/
def Statement.lastRun (setting : Setting) (s : Statement) : Run :=
  ((inferStatement setting s).runFrom .start).2

/-- The placeholders of a described statement, those of its assignments in front, are those of the run
that its walk ends in. -/
theorem placeholders_of_described {setting : Setting} {s : Statement} {d : Description}
    (h : describe setting s = .ok d) :
    ∃ analysis run solution, (inferStatement setting s).outcome .start = .ok (analysis, run) ∧
      solve setting.profile run.constraints = .ok solution ∧
      d.data ++ d.parameters =
        run.placeholders.zipIdx.map fun (p, index) => p.result index solution setting.profile := by
  obtain ⟨analysis, run, solution, hwalk, hsolve, rfl⟩ := describe_eq_ok_iff.1 h
  obtain ⟨hwritten, -⟩ := inferStatement_entries hwalk
  exact ⟨analysis, run, solution, hwalk, hsolve,
    (data_of setting.profile run solution hwritten).2⟩

/-- The walk over a described statement, and the types that its solution gives to the variables of the
placeholders. -/
theorem types_of_described {setting : Setting} {s : Statement} {d : Description}
    (h : describe setting s = .ok d) :
    ∃ analysis solution,
      (inferStatement setting s).outcome .start = .ok (analysis, s.lastRun setting) ∧
      solve setting.profile (s.lastRun setting).constraints = .ok solution ∧
      List.Forall₂ (fun v p => p.type = solution.typeOf setting.profile v)
        (s.lastRun setting).vars (d.data ++ d.parameters) := by
  obtain ⟨analysis, run, solution, hwalk, hsolve, hall⟩ := placeholders_of_described h
  have hlast : s.lastRun setting = run := by
    unfold Statement.lastRun
    rw [Analyze.runFrom_of_outcome hwalk]
  have hvars : List.Forall₂ (fun v (p : Placeholder) => p.var = v) run.vars run.placeholders :=
    List.forall₂_map_left_iff.2 (List.forall₂_same.2 fun _ _ => rfl)
  rw [hlast, hall]
  refine ⟨analysis, solution, hwalk, hsolve, rel_zipIdx (fun v p index hp => ?_) hvars 0⟩
  rw [← hp]
  rfl

/-- The placeholders of a statement that does not write what a query projects are described in the
order of its text. Each is not null exactly if its place in the text says so. -/
theorem describe_notNull {setting : Setting} {s : Statement} {d : Description}
    (hs : s.writesQuery = false) (h : describe setting s = .ok d) :
    (s.marks setting.schema).map Mark.entry = entries s.pieces ∧
      (d.data ++ d.parameters).map (·.notNull) = (s.marks setting.schema).map Mark.notNull := by
  obtain ⟨analysis, run, solution, hwalk, -, hall⟩ := placeholders_of_described h
  have hmarks := marks_of_statement hs hwalk
  have hentries := (inferStatement_entries hwalk).2
  constructor
  · calc (s.marks setting.schema).map Mark.entry
      _ = run.entries := by rw [← hmarks, Run.marks, List.map_map]; rfl
      _ = entries s.pieces := hentries
  · have hfirst : ∀ ps : List Placeholder, ∀ n,
        (ps.zipIdx n).map (fun p => p.1.notNull) = ps.map (·.notNull) := by
      intro ps n
      rw [show (fun p : Placeholder × Nat => p.1.notNull) = Placeholder.notNull ∘ Prod.fst from rfl,
        ← List.map_map, List.zipIdx_map_fst]
    rw [hall, List.map_map, ← hmarks, Run.marks, List.map_map]
    exact hfirst run.placeholders 0

/-- `SELECT ? AS a FROM mytable1 WHERE id = (?) AND ? IS NULL LIMIT ?`. -/
def idOrNothing : Select :=
  ⟨[], [⟨false, [.expr (.parameter none) (some "a")], [.table "mytable1" none], [],
    some (.and (.compare .eq (.column ⟨none, "id"⟩) (.paren (.parameter none)))
      (.isNull false (.parameter none))), [], none⟩], [], some ⟨.parameter none, none⟩⟩

/-- Of four placeholders, the compared one and the limit are not null. -/
theorem describe_notNull_idOrNothing :
    ∃ d, describe ⟨oneTable, .mysql⟩ (.select idOrNothing) = .ok d ∧
      (d.data ++ d.parameters).map (·.notNull) = [false, true, false, true] := by
  have hd : (describe ⟨oneTable, .mysql⟩ (.select idOrNothing)).isOk = true := by decide +kernel
  obtain ⟨d, hd⟩ := exists_of_isOk hd
  obtain ⟨-, hnotNull⟩ := describe_notNull rfl hd
  have hmarks : ((Statement.select idOrNothing).marks oneTable).map Mark.notNull =
      [false, true, false, true] := by decide +kernel
  exact ⟨d, hd, hnotNull.trans hmarks⟩

end QuerySignature
