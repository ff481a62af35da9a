import QuerySignature.Description.Describe
import QuerySignature.Proofs.Comparison.Solved
import QuerySignature.Proofs.Spelling.Walk

namespace QuerySignature

/-! # Descriptions by plain forms

An INSERT or an UPDATE finds the columns that it writes by their names. The walk over a statement and
the walk over its plain form find the same columns, and so whole statements go in step and demand the
same of the same variables. The two are described alike, and so are any two statements of one plain form.

- `targetColumns_respelled`: the columns that an INSERT writes.
- `Spelling.InStep.insert`, `Spelling.InStep.update`: statements that write.
- `Spelling.InStep.statement`: any statement.
- `describe_plain`: a statement and its plain form.
- `describe_of_plain_eq`: two statements of one plain form.
-/

/-- What the walks over a statement and over its plain form give. -/
structure Analysis.Respelled (s : Spelling) (a a' : Analysis) : Prop where
  query : a.query.Respelled s a'.query
  written : a'.written = a.written

theorem Analysis.Respelled.ofWrite (s : Spelling) (written : Nat) :
    Analysis.Respelled s (.ofWrite written) (.ofWrite written) :=
  ⟨⟨.nil, .nil, rfl⟩, rfl⟩

/-- An INSERT writes the same columns, or gives a name in both walks that no column has. -/
theorem targetColumns_respelled {s : Spelling} {all all' : Level} (hall : all.Respelled s all')
    (names : List String) :
    AlikeInKind (Level.Respelled s) (targetColumns all names)
      (targetColumns all' (names.map s.name)) := by
  unfold targetColumns
  rw [List.isEmpty_map]
  split
  case isTrue => exact .ok hall
  case isFalse hnames =>
    clear hnames
    induction names with
    | nil => exact .ok .nil
    | cons name rest ih =>
      rw [List.map_cons, List.mapM_cons, List.mapM_cons]
      have htarget : Option.Rel (SourceColumn.Respelled s)
          (all.find? fun column => sameName column.name name)
          (all'.find? fun column => sameName column.name (s.name name)) :=
        rel_find? (fun _ _ hc => (hc.name.compared (s.same_name name)).symm) hall
      refine AlikeInKind.bind (R := SourceColumn.Respelled s) ?_ fun c c' hc => ?_
      · generalize all.find? (fun column => sameName column.name name) = found,
          all'.find? (fun column => sameName column.name (s.name name)) = found' at htarget
        cases htarget with
        | none => exact .error rfl
        | some hc => exact .ok hc
      · exact ih.bind fun cs cs' hcs => .ok (.cons hc hcs)

namespace Spelling.InStep

variable {s : Spelling} {setting : Setting}

/-! ## Statements that write -/

theorem rows (hschema : s.FindsTables setting.schema) {targets targets' : Level}
    (htargets : targets.Respelled s targets') (rows : List (List Expr)) :
    s.InStep Done (inferRows setting targets rows)
      (inferRows setting targets' (rows.map (plainAll s))) := by
  induction rows with
  | nil => exact pure trivial
  | cons row rest ih =>
    have hlength : (plainAll s row).length = row.length := by
      induction row with
      | nil => rfl
      | cons e es ih => exact congrArg (· + 1) ih
    rw [List.map_cons]
    unfold inferRows
    rw [hlength, ← htargets.length_eq]
    split
    · exact throw_bind rfl _ _
    · refine bind (all s hschema row ⟨.nil, .nil⟩) fun es es' hes => ?_
      refine bind (s.comparison.bindRow trivial htargets ?_) fun _ _ _ => ih
      exact List.rel_map (fun _ _ he => ⟨he.var, he.placeholder⟩) hes

theorem insert (hschema : s.FindsTables setting.schema) (table : String) (columns : List String)
    (rows : InsertRows) :
    s.InStep Done (inferInsert setting table columns rows)
      (inferInsert setting (s.name table) (columns.map s.name) (rows.plain s)) := by
  refine bind (tableColumns hschema table none) fun all all' hall => ?_
  refine bind (lift (targetColumns_respelled hall columns)) fun targets targets' htargets => ?_
  cases rows with
  | values rows => exact InStep.rows hschema htargets rows
  | query q =>
    refine bind (query s hschema q .nil) fun result result' hresult => ?_
    dsimp only
    rw [← htargets.length_eq, ← hresult.columns.length_eq]
    split
    · exact throw_bind rfl _ _
    · refine s.comparison.bindRow trivial htargets ?_
      exact List.rel_map (fun _ _ hc => ⟨hc.var, hc.placeholder⟩) hresult.columns

theorem assignments (hschema : s.FindsTables setting.schema) {scope scope' : Scope}
    (hs : scope.Respelled s scope') (as : List Assignment) :
    s.InStep Done (inferAssignments setting scope as)
      (inferAssignments setting scope' (as.map (Assignment.plain s))) := by
  induction as with
  | nil => exact pure trivial
  | cons a rest ih =>
    have hresolve : s.InStep (SourceColumn.Respelled s)
        (QuerySignature.resolve scope (.ofText a.column))
        (QuerySignature.resolve scope' (.ofText (s.name a.column))) := by
      rw [s.ofText_name]
      exact resolve hs _
    refine bind hresolve fun c c' hc => ?_
    refine bind (expr s hschema a.value hs) fun e e' he => ?_
    refine bind (s.comparison.reference hc) fun v v' hv => ?_
    refine bind (demand (Constraint.Compared.strict trivial hv he.var)) fun _ _ _ => ?_
    exact bind (s.comparison.matchNull he.placeholder hc) fun _ _ _ => ih

theorem update (hschema : s.FindsTables setting.schema) (table : String) (as : List Assignment)
    (criteria : Option Expr) :
    s.InStep (fun n n' => n' = n) (inferUpdate setting table as criteria)
      (inferUpdate setting (s.name table) (as.map (Assignment.plain s)) (plainSome s criteria)) := by
  refine bind (tableColumns hschema table none) fun columns columns' hcolumns => ?_
  have hs : Scope.Respelled s ⟨columns, []⟩ ⟨columns', []⟩ := ⟨hcolumns, .nil⟩
  refine bind (assignments hschema hs as) fun _ _ _ => ?_
  refine bind get fun r r' hr => ?_
  refine bind (some s hschema criteria hs) fun _ _ _ => ?_
  exact pure hr.placeholders.length_eq.symm

theorem delete (hschema : s.FindsTables setting.schema) (table : String)
    (criteria : Option Expr) :
    s.InStep Done (inferDelete setting table criteria)
      (inferDelete setting (s.name table) (plainSome s criteria)) := by
  refine bind (tableColumns hschema table none) fun columns columns' hcolumns => ?_
  exact bind (some s hschema criteria ⟨hcolumns, .nil⟩) fun _ _ _ => pure trivial

/-! ## Statements -/

theorem statement (hschema : s.FindsTables setting.schema) (st : Statement) :
    s.InStep (Analysis.Respelled s) (inferStatement setting st)
      (inferStatement setting (st.plain s)) := by
  cases st with
  | select q =>
    exact bind (query s hschema q .nil) fun result result' hresult => pure ⟨hresult, rfl⟩
  | insert table columns rows =>
    exact bind (insert hschema table columns rows) fun _ _ _ => pure (.ofWrite s 0)
  | update table as criteria =>
    refine bind (update hschema table as criteria) fun written written' hwritten => ?_
    rw [hwritten]
    exact pure (.ofWrite s written)
  | delete table criteria =>
    exact bind (delete hschema table criteria) fun _ _ _ => pure (.ofWrite s 0)

end Spelling.InStep

/-! ## Descriptions -/

/-- An output column of one type, under names of one plain form. -/
structure ResultColumn.Respelled (s : Spelling) (c c' : ResultColumn) : Prop where
  name : s.Same c.name c'.name
  type : c'.type = c.type
  notNull : c'.notNull = c.notNull
  table : s.Same c.table c'.table

/-- Descriptions that differ in how names are written only. -/
structure Description.Respelled (s : Spelling) (d d' : Description) : Prop where
  columns : List.Forall₂ (ResultColumn.Respelled s) d.columns d'.columns
  parameters : d'.parameters = d.parameters
  data : d'.data = d.data
  manyRows : d'.manyRows = d.manyRows
  relations : List.Forall₂ (Relation.Respelled s) d.relations d'.relations

section

variable {s : Spelling} {profile : Profile} {setting : Setting}

theorem OutputColumn.Compared.result {c c' : OutputColumn} (h : c.Respelled s c')
    (solution : Solution) :
    ResultColumn.Respelled s (c.result solution profile) (c'.result solution profile) :=
  ⟨h.name, h.type fun _ _ hv _ => solution.typeOf_relabelled hv profile, h.notNull, h.table⟩

/-- Placeholders are named in the text or by their places, which are the same. -/
theorem results_relabelled {ps ps' : List Placeholder}
    (h : List.Forall₂ Placeholder.Relabelled ps ps') (solution : Solution) (profile : Profile) :
    (ps'.zipIdx.map fun (p, index) => p.result index solution profile) =
      ps.zipIdx.map fun (p, index) => p.result index solution profile := by
  refine map_zipIdx_eq_of_rel (fun p p' index hp => ?_) h 0
  dsimp only
  unfold Placeholder.result
  rw [hp.name, hp.notNull, solution.typeOf_relabelled hp.var profile, hp.var.list]

theorem Statement.kind_plain (s : Spelling) (st : Statement) : (st.plain s).kind = st.kind := by
  cases st <;> rfl

theorem Description.Respelled.of {analysis analysis' : Analysis}
    (h : analysis.Respelled s analysis') {run run' : Run} (hrun : run.Respelled s run')
    (solution : Solution) (st : Statement) :
    Description.Respelled s (.of profile st analysis run solution)
      (.of profile (st.plain s) analysis' run' solution) := by
  have hresults := results_relabelled hrun.placeholders solution profile
  refine ⟨?_, ?_, ?_, h.query.manyRows, h.query.relations⟩
  · exact List.rel_map (fun _ _ hc => hc.result solution) h.query.columns
  · unfold Description.of
    dsimp only
    rw [hresults, Statement.kind_plain, h.written]
  · unfold Description.of
    dsimp only
    rw [hresults, Statement.kind_plain, h.written]

/-- A statement and its plain form are described alike, or refused for reasons of one kind. -/
theorem describe_plain (hschema : s.FindsTables setting.schema) (st : Statement) :
    AlikeInKind (Description.Respelled s) (describe setting st) (describe setting (st.plain s)) := by
  rw [describe_eq, describe_eq]
  refine AlikeInKind.bind (Spelling.InStep.statement hschema st _ _ (.start s)) fun p p' hp => ?_
  have hsolve := solve_compared (fun _ _ hv => hv) setting.profile hp.2.constraints
  generalize solve setting.profile p.2.constraints = solved,
    solve setting.profile p'.2.constraints = solved' at hsolve
  cases hsolve with
  | error clash clash' => exact .error rfl
  | @ok solution _ hsolution =>
    subst hsolution
    exact .ok (.of hp.1 hp.2 solution st)

theorem Relation.Respelled.through {r r' plain : Relation} (h : r.Respelled s plain)
    (h' : r'.Respelled s plain) : r.Respelled s r' where
  name := h.name.trans h'.name.symm
  aliasName := h.aliasName.trans h'.aliasName.symm
  parent := h.parent.trans h'.parent.symm
  cardinality := h'.cardinality.symm.trans h.cardinality
  joinColumn hexact := (h'.joinColumn hexact).symm.trans (h.joinColumn hexact)

theorem ResultColumn.Respelled.through {c c' plain : ResultColumn} (h : c.Respelled s plain)
    (h' : c'.Respelled s plain) : c.Respelled s c' where
  name := h.name.trans h'.name.symm
  type := h'.type.symm.trans h.type
  notNull := h'.notNull.symm.trans h.notNull
  table := h.table.trans h'.table.symm

theorem Description.Respelled.through {d d' plain : Description} (h : d.Respelled s plain)
    (h' : d'.Respelled s plain) : d.Respelled s d' where
  columns := rel_trans (fun _ _ _ hc hc' => hc.through hc') h.columns h'.columns.flip
  parameters := h'.parameters.symm.trans h.parameters
  data := h'.data.symm.trans h.data
  manyRows := h'.manyRows.symm.trans h.manyRows
  relations := rel_trans (fun _ _ _ hr hr' => hr.through hr') h.relations h'.relations.flip

/-- Statements of one plain form are described alike, or refused for reasons of one kind. -/
theorem describe_of_plain_eq (hschema : s.FindsTables setting.schema) {st st' : Statement}
    (hplain : st'.plain s = st.plain s) :
    AlikeInKind (Description.Respelled s) (describe setting st) (describe setting st') := by
  have h' := describe_plain hschema st'
  rw [hplain] at h'
  exact (describe_plain hschema st).through h' fun _ _ _ hd hd' => hd.through hd'

end

/-! ## Names in any case -/

/-- A statement with all its names in lower case. -/
def Statement.folded (st : Statement) : Statement := st.plain ⟨true, false⟩

/-- An output column of one type, under names that differ in case at most. -/
structure ResultColumn.CaseAlike (c c' : ResultColumn) : Prop where
  name : sameName c.name c'.name = true
  type : c'.type = c.type
  notNull : c'.notNull = c.notNull
  table : sameName c.table c'.table = true

/-- What two descriptions say of columns, placeholders and rows, in names that differ in case at
most. -/
structure Description.CaseAlike (d d' : Description) : Prop where
  columns : List.Forall₂ ResultColumn.CaseAlike d.columns d'.columns
  parameters : d'.parameters = d.parameters
  data : d'.data = d.data
  manyRows : d'.manyRows = d.manyRows

/-- The case of names does not count, wherever they stand: statements that differ in it at most are
described alike, or refused for reasons of one kind. -/
theorem describe_caseless {setting : Setting}
    (hdistinct : setting.schema.tables.Pairwise fun a b => sameName a b = false)
    {st st' : Statement} (hfolded : st'.folded = st.folded) :
    AlikeInKind Description.CaseAlike (describe setting st) (describe setting st') := by
  have halike := describe_of_plain_eq (Spelling.findsTables_of_distinct _ hdistinct) hfolded
  refine halike.mono fun d d' hd => ⟨?_, hd.parameters, hd.data, hd.manyRows⟩
  exact hd.columns.imp fun c c' hc =>
    ⟨hc.name.sameName, hc.type, hc.notNull, hc.table.sameName⟩

/-- `SELECT COUNT(column) FROM table AS t WHERE t.column = ?`, by the names that are written. -/
def countedBy (count table aliasName qualifier column : String) : Statement :=
  .select ⟨[], [⟨false, [.expr (.call count false [.column ⟨none, column⟩]) none],
    [.table table (some aliasName)], [],
    some (.compare .eq (.column ⟨some qualifier, column⟩) (.parameter none)), [], none⟩], [], none⟩

theorem folded_countedBy (count table aliasName qualifier column : String) :
    (countedBy count table aliasName qualifier column).folded =
      countedBy (lowerName count) (lowerName table) (lowerName aliasName) (lowerName qualifier)
        (lowerName column) := rfl

/-- Here the two columns have the texts `COUNT(id)` and `count(ID)` for names. -/
theorem describe_caseless_countedBy :
    ∃ d d', describe ⟨oneTable, .mysql⟩ (countedBy "COUNT" "mytable1" "t" "t" "id") = .ok d ∧
      describe ⟨oneTable, .mysql⟩ (countedBy "count" "MyTable1" "t" "T" "ID") = .ok d' ∧
      d.CaseAlike d' := by
  have hdistinct : oneTable.tables.Pairwise fun a b => sameName a b = false := by decide +kernel
  have hcount : lowerName "count" = lowerName "COUNT" := by decide +kernel
  have htable : lowerName "MyTable1" = lowerName "mytable1" := by decide +kernel
  have hqualifier : lowerName "T" = lowerName "t" := by decide +kernel
  have hcolumn : lowerName "ID" = lowerName "id" := by decide +kernel
  have hfolded : (countedBy "count" "MyTable1" "t" "T" "ID").folded =
      (countedBy "COUNT" "mytable1" "t" "t" "id").folded := by
    rw [folded_countedBy, folded_countedBy, hcount, htable, hqualifier, hcolumn]
  have halike := @describe_caseless ⟨oneTable, .mysql⟩ hdistinct _ _ hfolded
  have hd : (describe ⟨oneTable, .mysql⟩
      (countedBy "COUNT" "mytable1" "t" "t" "id")).isOk = true := by decide +kernel
  obtain ⟨d, hd⟩ := exists_of_isOk hd
  obtain ⟨d', hd', hcase⟩ := halike.of_ok hd
  exact ⟨d, d', hd, hd', hcase⟩

/-! ## Parentheses -/

/-- A statement without the parentheses that mean nothing. Those around a star stay, those around the
only item of an IN list if it is a placeholder, and all in a projected expression that is neither a
column nor has an alias. -/
def Statement.unwrapped (st : Statement) : Statement := st.plain ⟨false, true⟩

theorem Relation.Respelled.eq {s : Spelling} {r r' : Relation} (hexact : s.caseless = false)
    (h : r.Respelled s r') : r' = r := by
  obtain ⟨name, aliasName, parent, cardinality, joinColumn⟩ := r
  obtain ⟨name', aliasName', parent', cardinality', joinColumn'⟩ := r'
  rw [Relation.mk.injEq]
  exact ⟨h.name.eq hexact, h.aliasName.eq hexact, h.parent.eq hexact, h.cardinality,
    h.joinColumn hexact⟩

theorem ResultColumn.Respelled.eq {s : Spelling} {c c' : ResultColumn}
    (hexact : s.caseless = false) (h : c.Respelled s c') : c' = c := by
  obtain ⟨name, type, notNull, table⟩ := c
  obtain ⟨name', type', notNull', table'⟩ := c'
  rw [ResultColumn.mk.injEq]
  exact ⟨h.name.eq hexact, h.type, h.notNull, h.table.eq hexact⟩

/-- Parentheses that mean nothing are not seen: statements that differ in them at most have the same
columns, placeholders, number of rows and relations, or are refused for reasons of one kind. -/
theorem describe_unwrapped {setting : Setting} {st st' : Statement}
    (hunwrapped : st'.unwrapped = st.unwrapped) :
    AlikeInKind (fun d d' => d'.columns = d.columns ∧ d'.parameters = d.parameters ∧
        d'.data = d.data ∧ d'.manyRows = d.manyRows ∧ d'.relations = d.relations)
      (describe setting st) (describe setting st') := by
  have halike := describe_of_plain_eq (Spelling.findsTables_of_exact rfl setting.schema) hunwrapped
  refine halike.mono fun d d' hd => ⟨?_, hd.parameters, hd.data, hd.manyRows, ?_⟩
  · simpa using map_eq_of_rel (f := id) (g := id) hd.columns fun _ _ hc => hc.eq rfl
  · simpa using map_eq_of_rel (f := id) (g := id) hd.relations fun _ _ hr => hr.eq rfl

/-- `SELECT id AS a FROM mytable1 WHERE id = ? LIMIT 1`, with something around its parts. -/
def firstWrapped (wrap : Expr → Expr) : Statement :=
  .select ⟨[], [⟨false, [.expr (wrap (.column ⟨none, "id"⟩)) (some "a")],
    [.table "mytable1" none], [],
    some (wrap (.compare .eq (wrap (.column ⟨none, "id"⟩)) (wrap (.parameter none)))), [], none⟩], [],
    some ⟨wrap (.literal (.int 1)), none⟩⟩

theorem describe_unwrapped_firstWrapped :
    ∃ d d', describe ⟨oneTable, .mysql⟩ (firstWrapped id) = .ok d ∧
      describe ⟨oneTable, .mysql⟩ (firstWrapped .paren) = .ok d' ∧ d'.columns = d.columns ∧
      d'.parameters = d.parameters ∧ d'.data = d.data ∧ d'.manyRows = d.manyRows ∧
      d'.relations = d.relations := by
  have hunwrapped : (firstWrapped .paren).unwrapped = (firstWrapped id).unwrapped := rfl
  have halike := @describe_unwrapped ⟨oneTable, .mysql⟩ _ _ hunwrapped
  have hd : (describe ⟨oneTable, .mysql⟩ (firstWrapped id)).isOk = true := by decide +kernel
  obtain ⟨d, hd⟩ := exists_of_isOk hd
  obtain ⟨d', hd', hsame⟩ := halike.of_ok hd
  exact ⟨d, d', hd, hd', hsame⟩

end QuerySignature
