import QuerySignature.Analysis.Write
import QuerySignature.Proofs.Walk.Parts

namespace QuerySignature

/-! # Columns as the schema declares them

A table of the schema brings a column for each of its records, as it is declared there. An UPDATE and
an INSERT write columns of one table.

- `declared_of_table`: the columns of a table that no common table hides;
- `exists_resolveIn`: a reference means a column if names do not tell apart those that it may mean;
- `declared_of_resolve`: the column of a table that a reference means;
- `targetColumns_eq_ok`: the columns that an INSERT writes.
-/

/-- A column of a table, as its record declares it. -/
structure SourceColumn.Declares (aliasName : String) (record : ColumnRecord) (c : SourceColumn) :
    Prop where
  table : c.table = record.table
  aliasName : c.aliasName = aliasName
  name : c.name = record.column
  key : c.key = record.key
  notNull : c.notNull = record.notNull
  info : c.var.info = .exact record.type
  plain : c.var.projected = false

theorem declared_of_freshColumns {aliasName : String} {records : List ColumnRecord} {r s : Run}
    {level : Level} (h : (freshColumns aliasName records).outcome r = .ok (level, s)) :
    List.Forall₂ (SourceColumn.Declares aliasName) records level :=
  rel_freshColumns (fun _ _ hinfo hplain => ⟨rfl, rfl, rfl, rfl, rfl, hinfo, hplain⟩) h

/-- A table that no common table hides has the columns that its records declare. -/
theorem declared_of_table {schema : Schema} {name : String} {aliasName : Option String} {r s : Run}
    {level : Level} (hhidden : r.cte? (lastSegment name) = none)
    (h : (tableColumns schema name aliasName).outcome r = .ok (level, s)) :
    ∃ records, schema.columnsOf? (lastSegment name) = some records ∧
      List.Forall₂ (SourceColumn.Declares (aliasName.getD "")) records level := by
  obtain ⟨records, hrecords, hfresh⟩ := records_of_table hhidden h
  exact ⟨records, hrecords, declared_of_freshColumns hfresh⟩

theorem resolveIn_of_resolve {scope : Scope} {c : ColumnRef} {column : SourceColumn}
    (h : scope.resolve c = .ok column) : resolveIn c scope.levels = some (.ok column) := by
  unfold Scope.resolve at h
  cases hmeaning : resolveIn c scope.levels with
  | none =>
    rw [hmeaning] at h
    dsimp only at h
    split at h <;> cases h
  | some meaning =>
    rw [hmeaning] at h
    exact congrArg some h

theorem resolve_of_resolveIn {scope : Scope} {c : ColumnRef} {column : SourceColumn}
    (h : resolveIn c scope.levels = some (.ok column)) : scope.resolve c = .ok column := by
  unfold Scope.resolve
  rw [h]

/-- Columns that a reference may mean cannot be told apart if their tables have one name. -/
theorem sameAs_of_answers {level : Level} {table : String} {c : ColumnRef}
    (hvisible : ∀ d ∈ level.answers c, sameName d.visibleTable table = true) {d e : SourceColumn}
    (hd : d ∈ level.answers c) (he : e ∈ level.answers c) : d.sameAs e = true := by
  have hnamed : ∀ f ∈ level.answers c, sameName f.name c.name = true := by
    intro f hf
    have hanswers := (List.mem_filter.1 hf).2
    unfold SourceColumn.answers at hanswers
    rw [Bool.and_eq_true] at hanswers
    exact hanswers.1
  have htable := sameName_trans (hvisible d hd) (sameName_symm (hvisible e he))
  have hname := sameName_trans (hnamed d hd) (sameName_symm (hnamed e he))
  unfold SourceColumn.sameAs
  rw [htable, hname]
  rfl

/-- A reference means a column where it may mean some, and no two that can be told apart. -/
theorem exists_resolveIn {level : Level} {c : ColumnRef} {d : SourceColumn} (hd : d ∈ level.answers c)
    (hsame : ∀ e ∈ level.answers c, ∀ f ∈ level.answers c, e.sameAs f = true) (rest : List Level) :
    ∃ target ∈ level, resolveIn c (level :: rest) = some (.ok target) := by
  cases hanswers : level.answers c with
  | nil =>
    rw [hanswers] at hd
    exact absurd hd List.not_mem_nil
  | cons first others =>
    rw [hanswers] at hsame
    have hall : (others.all fun other => other.sameAs first) = true :=
      List.all_eq_true.2 fun other hother =>
        hsame other (List.mem_cons_of_mem _ hother) first List.mem_cons_self
    have hfirst : first ∈ level.answers c := by
      rw [hanswers]
      exact List.mem_cons_self
    refine ⟨first, List.mem_of_mem_filter hfirst, ?_⟩
    unfold resolveIn
    simp only [hanswers, hall, if_true]

/-- A reference to a column of a table alone means the first column of its name. -/
theorem declared_of_resolve {records : List ColumnRecord} {level : Level}
    (h : List.Forall₂ (SourceColumn.Declares "") records level) {c : ColumnRef}
    {column : SourceColumn} (hcolumn : Scope.resolve ⟨level, []⟩ c = .ok column) :
    ∃ record, (records.find? fun record => sameName record.column c.name &&
        (c.qualifier.isEmpty || sameName record.table c.qualifier)) = some record ∧
      column.Declares "" record := by
  have hfirst : level.find? (fun column => column.answers c.qualifier c.name) = some column := by
    have hmeaning := resolveIn_of_resolve hcolumn
    unfold Scope.levels resolveIn resolveIn at hmeaning
    rw [← List.head?_filter]
    show (Level.answers level c).head? = _
    cases hanswers : Level.answers level c with
    | nil =>
      simp only [hanswers] at hmeaning
      cases hmeaning
    | cons first others =>
      simp only [hanswers] at hmeaning
      split at hmeaning
      · cases hmeaning
        rfl
      · cases hmeaning
  have hrel := rel_find? (R := SourceColumn.Declares "")
    (p := fun record => sameName record.column c.name &&
      (c.qualifier.isEmpty || sameName record.table c.qualifier))
    (q := fun column => column.answers c.qualifier c.name)
    (fun record column hdeclares => by
      unfold SourceColumn.answers SourceColumn.isOf SourceColumn.visibleTable
      rw [hdeclares.name, hdeclares.aliasName, hdeclares.table]
      rfl) h
  rw [hfirst] at hrel
  cases hrel' : records.find? _ with
  | none =>
    rw [hrel'] at hrel
    cases hrel
  | some record =>
    rw [hrel'] at hrel
    cases hrel with
    | some hdeclares => exact ⟨record, rfl, hdeclares⟩

/-- An INSERT writes the first column of each name, or all columns if it gives no names. -/
theorem targetColumns_eq_ok {all targets : Level} {names : List String}
    (h : targetColumns all names = .ok targets) :
    if names.isEmpty then targets = all
    else List.Forall₂ (fun name target =>
      all.find? (fun column => sameName column.name name) = some target) names targets := by
  unfold targetColumns at h
  split at h
  case isTrue hempty =>
    rw [if_pos hempty]
    exact (Except.ok.inj h).symm
  case isFalse hempty =>
    rw [if_neg hempty]
    clear hempty
    induction names generalizing targets with
    | nil =>
      cases h
      exact .nil
    | cons name rest ih =>
      rw [List.mapM_cons] at h
      obtain ⟨target, htarget, h⟩ := bind_eq_ok.1 h
      obtain ⟨others, hothers, h⟩ := bind_eq_ok.1 h
      cases h
      refine .cons ?_ (ih hothers)
      cases hfound : all.find? fun column => sameName column.name name with
      | none =>
        simp only [hfound] at htarget
        cases htarget
      | some column =>
        simp only [hfound] at htarget
        exact congrArg some (Except.ok.inj htarget)

/-- The columns that an INSERT writes are columns of its table. -/
theorem mem_of_targetColumns {all targets : Level} {names : List String}
    (h : targetColumns all names = .ok targets) : ∀ c ∈ targets, c ∈ all := by
  have htargets := targetColumns_eq_ok h
  split at htargets
  case isTrue =>
    rw [htargets]
    exact fun _ hc => hc
  case isFalse =>
    intro c hc
    obtain ⟨name, -, hfound⟩ := exists_partner htargets hc
    exact List.mem_of_find?_eq_some hfound

end QuerySignature
