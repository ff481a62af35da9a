import QuerySignature.Proofs.Fragments.Seen

namespace QuerySignature

/-! # Labels of sources

A source is written under a label, and visible under a name that leaves out a schema in front of the
table. The two are the same where there is an alias, or no schema.

- `table_of_columnsOf?`: the columns of a table of a schema carry its name;
- `visibleTable_of_source`: the columns of a table that is visible are seen under its visible name;
- `exists_sourceFields`: whatever source the walk has read, the cutting finds the columns of;
- `broughtAlike_of_source`: a source that is visible under its label brings the columns that its
  fragment tells.
-/

theorem SameTable.isEmpty {visible written : String} (h : SameTable visible written) :
    visible.isEmpty = false := by
  rw [isEmpty_of_sameName h.1]
  simpa using h.2

/-! ## Tables of a schema -/

namespace Schema

/-- Every record stands under the name of its table. -/
def Filed (entries : List (String × List ColumnRecord)) : Prop :=
  ∀ entry ∈ entries, ∀ record ∈ entry.2, record.table = entry.1

theorem Filed.add {entries : List (String × List ColumnRecord)} (h : Filed entries)
    (record : ColumnRecord) : Filed (add record entries) := by
  induction entries with
  | nil =>
    intro entry hentry found hfound
    obtain rfl := List.mem_singleton.1 hentry
    rw [List.mem_singleton.1 hfound]
  | cons first rest ih =>
    have hrest : Filed rest := fun entry hentry => h entry (List.mem_cons_of_mem _ hentry)
    have hfirst := h first List.mem_cons_self
    rcases first with ⟨name, columns⟩
    unfold Schema.add
    -- the record joins the columns that are filed under its table
    split
    case isTrue hname =>
      intro entry hentry found hfound
      rcases List.mem_cons.1 hentry with rfl | hentry
      · rcases List.mem_append.1 hfound with hfound | hfound
        · exact hfirst found hfound
        · rw [List.mem_singleton.1 hfound]
          exact hname.symm
      · exact hrest entry hentry found hfound
    case isFalse =>
      intro entry hentry found hfound
      rcases List.mem_cons.1 hentry with rfl | hentry
      · exact hfirst found hfound
      · exact ih hrest entry hentry found hfound

theorem filed_ofRecords (records : List ColumnRecord) : Filed (ofRecords records).entries := by
  unfold ofRecords
  have hfold : ∀ entries, Filed entries →
      Filed (records.foldl (fun entries record => add record entries) entries) := by
    induction records with
    | nil => exact fun entries h => h
    | cons record rest ih => exact fun entries h => ih _ (h.add record)
  exact hfold [] fun entry hentry => absurd hentry List.not_mem_nil

/-- The columns of a table carry its name. -/
theorem table_of_columnsOf? {records columns : List ColumnRecord} {table : String}
    (h : (ofRecords records).columnsOf? table = some columns) {record : ColumnRecord}
    (hrecord : record ∈ columns) : sameName record.table table = true := by
  have hfiled := filed_ofRecords records
  unfold columnsOf? at h
  simp only [Option.map_eq_some_iff, Option.or_eq_some_iff] at h
  obtain ⟨entry, hentry, rfl⟩ := h
  have hmem : entry ∈ (ofRecords records).entries ∧ sameName entry.1 table = true := by
    rcases hentry with hexact | ⟨-, hcaseless⟩
    · have hname : entry.1 = table := by simpa using List.find?_some hexact
      exact ⟨List.mem_of_find?_eq_some hexact, by rw [hname]; exact sameName_refl table⟩
    · exact ⟨List.mem_of_find?_eq_some hcaseless, by simpa using List.find?_some hcaseless⟩
  rw [hfiled entry hmem.1 record hrecord]
  exact hmem.2

end Schema

/-! ## Labels -/

/-- Whether a source is a table that is visible under a name. -/
def Source.isShown : Source → Bool
  | .table name aliasName => !(Source.table name aliasName).visibleName.isEmpty
  | .derived .. => false

/-- Whether a source is a table that is visible under its label: it has an alias, or no schema in
front of its name. -/
def Source.isLabelled : Source → Bool
  | .table name none => !name.isEmpty && !name.toList.contains '.'
  | .table _ (some aliasName) => !aliasName.isEmpty
  | .derived .. => false

theorem lastSegment_of_no_dot {name : String} (h : name.toList.contains '.' = false) :
    lastSegment name = name := by
  unfold lastSegment lastSegmentChars
  cases hcut : cutAtLastDot? name.toList with
  | none => exact String.ofList_toList
  | some parts =>
    have hdot : '.' ∈ name.toList := by
      rw [(cutAtLastDot?_eq_some hcut).1]
      simp
    simp [hdot] at h

namespace Source

variable {source : Source}

theorem label_ne_empty (h : source.isLabelled = true) : source.label ≠ "" := by
  cases source with
  | derived q aliasName => cases h
  | table name aliasName =>
    cases aliasName with
    | none =>
      simp only [isLabelled, Bool.and_eq_true] at h
      simpa [label] using h.1
    | some aliasName => simpa [isLabelled, label] using h

theorem visibleName_eq_label (h : source.isLabelled = true) : source.visibleName = source.label := by
  cases source with
  | derived q aliasName => cases h
  | table name aliasName =>
    cases aliasName with
    | none =>
      simp only [isLabelled, Bool.and_eq_true, Bool.not_eq_true'] at h
      exact lastSegment_of_no_dot h.2
    | some aliasName => rfl

theorem isShown_of_isLabelled (h : source.isLabelled = true) : source.isShown = true := by
  have hshown : source.visibleName ≠ "" := visibleName_eq_label h ▸ label_ne_empty h
  cases source with
  | derived q aliasName => cases h
  | table name aliasName => simpa [isShown] using hshown

theorem visibleName_isEmpty (h : source.isShown = true) : source.visibleName.isEmpty = false := by
  cases source with
  | derived q aliasName => cases h
  | table name aliasName => simpa [isShown] using h

/-- A table that is visible is a relation, whose key is its visible name. -/
theorem exists_shownRelation (h : source.isShown = true) (columns : Level) :
    ∃ relation, Relation.ofSource? source columns = some relation ∧
      relation.key = source.visibleName ∧ relation.parent = "" := by
  have hshown := visibleName_isEmpty h
  cases source with
  | derived q aliasName => cases h
  | table name aliasName =>
    refine ⟨_, rfl, ?_, rfl⟩
    unfold Relation.key
    cases aliasName with
    | none => rfl
    | some aliasName =>
      have halias : aliasName.isEmpty = false := hshown
      simp [halias, visibleName, label]

/-- A labelled source is a relation, whose key is its label. -/
theorem exists_relation (h : source.isLabelled = true) (columns : Level) :
    ∃ relation, Relation.ofSource? source columns = some relation ∧ relation.key = source.label ∧
      relation.parent = "" :=
  visibleName_eq_label h ▸ exists_shownRelation (isShown_of_isLabelled h) columns

end Source

/-! ## The columns of a source -/

/-- The columns of every common table carry its name. -/
def Run.CtesCarryNames (run : Run) : Prop := ∀ entry ∈ run.ctes, ∀ c ∈ entry.2, c.table = entry.1

theorem carryNames_of_commonTables {setting : Setting} {outer : List Level} {ctes : List Cte}
    {r s : Run} (hr : r.CtesCarryNames)
    (h : (inferCtes setting outer ctes).outcome r = .ok ((), s)) : s.CtesCarryNames := by
  induction ctes generalizing r with
  | nil =>
    cases h
    exact hr
  | cons cte rest ih =>
    rw [outcome_inferCtes_cons] at h
    rcases bind_eq_ok.1 h with ⟨⟨result, t⟩, hquery, h⟩
    refine ih ?_ h
    intro entry hentry c hc
    rcases List.mem_cons.1 hentry with rfl | hentry
    · obtain ⟨column, -, rfl⟩ := List.mem_map.1 hc
      rfl
    · rw [ctes_of_query hquery] at hentry
      exact hr entry hentry c hc

theorem table_of_freshColumns {aliasName : String} {columns : List ColumnRecord} {r s : Run}
    {level : Level} (h : (freshColumns aliasName columns).outcome r = .ok (level, s)) :
    ∀ c ∈ level, c.aliasName = aliasName ∧ ∃ record ∈ columns, c.table = record.table := by
  intro c hc
  have hall := rel_freshColumns (R := fun record c => c.aliasName = aliasName ∧ c.table = record.table)
    (fun _ _ _ _ => ⟨rfl, rfl⟩) h
  obtain ⟨record, hrecord, halias, htable⟩ := exists_partner hall hc
  exact ⟨halias, record, hrecord, htable⟩

section

variable {records : List ColumnRecord} {profile : Profile} {ctes : List Cte} {behind r s : Run}
  {source : Source} {level : Level}

/-- The columns of a table have its alias, if there is one, and carry its name. -/
theorem table_of_tableColumns (hr : r.CtesCarryNames) {name : String} {aliasName : Option String}
    (h : (tableColumns (.ofRecords records) name aliasName).outcome r = .ok (level, s)) :
    ∀ c ∈ level, c.aliasName = aliasName.getD "" ∧ sameName c.table (lastSegment name) = true := by
  intro c hc
  -- a common table hides the table of the schema
  rcases columns_of_table h with ⟨columns, hcte, -, rfl⟩ | ⟨-, columns, hfound, hfresh⟩
  · obtain ⟨entry, hentry, rfl⟩ := Option.map_eq_some_iff.1 hcte
    obtain ⟨column, hcolumn, rfl⟩ := List.mem_map.1 hc
    have hname := List.find?_some hentry
    rw [← hr entry (List.mem_of_find?_eq_some hentry) column hcolumn] at hname
    exact ⟨rfl, hname⟩
  · obtain ⟨halias, record, hrecord, htable⟩ := table_of_freshColumns hfresh c hc
    exact ⟨halias, htable ▸ Schema.table_of_columnsOf? hfound hrecord⟩

/-- The columns of a table that is visible are seen under its visible name. -/
theorem visibleTable_of_source (hr : r.CtesCarryNames) (hshown : source.isShown = true)
    (h : (inferSource ⟨.ofRecords records, profile⟩ source).outcome r = .ok (level, s)) :
    ∀ c ∈ level, sameName c.visibleTable source.visibleName = true := by
  cases source with
  | derived q aliasName => cases hshown
  | table name aliasName =>
    unfold inferSource at h
    intro c hc
    obtain ⟨halias, htable⟩ := table_of_tableColumns hr h c hc
    unfold SourceColumn.visibleTable
    rw [halias]
    cases aliasName with
    | none => exact htable
    | some aliasName =>
      have hnamed : aliasName.isEmpty = false := Source.visibleName_isEmpty hshown
      simp [hnamed, Source.visibleName, Source.label]

/-- Behind common tables, they carry their names. -/
theorem carryNames_behind {setting : Setting}
    (hctes : (inferCtes setting [] ctes).outcome .start = .ok ((), behind))
    (hsame : r.ctes = behind.ctes) : r.CtesCarryNames := by
  have hbehind := carryNames_of_commonTables
    (fun _ hentry => absurd hentry List.not_mem_nil) hctes
  unfold Run.CtesCarryNames
  rw [hsame]
  exact hbehind

/-- Where the walk has read a source, the cutting finds its columns. -/
theorem exists_sourceFields {schema : Schema}
    (hctes : (inferCtes ⟨schema, profile⟩ [] ctes).outcome .start = .ok ((), behind))
    (hsame : r.ctes = behind.ctes)
    (h : (inferSource ⟨schema, profile⟩ source).outcome r = .ok (level, s)) :
    ∃ fields, sourceFields schema ctes source = .ok fields := by
  cases source with
  | derived q aliasName => exact ⟨_, rfl⟩
  | table name aliasName =>
    cases hfind : ctes.find? fun cte => sameName cte.name (lastSegment name) with
    | some cte =>
      refine exists_of_isOk ?_
      simp only [sourceFields, hfind]
      rfl
    | none =>
      -- with no common table of the name, both look into the schema
      have hother : ∀ cte ∈ ctes, sameName cte.name (lastSegment name) = false := by
        simpa using List.find?_eq_none.1 hfind
      unfold inferSource at h
      obtain ⟨columns, hfound, -⟩ :=
        records_of_table (hidden_of_commonTables hctes hsame hother) h
      refine exists_of_isOk ?_
      simp only [sourceFields, hfind, hfound]
      rfl

/-- A labelled source whose columns are named brings the columns that its fragment tells. -/
theorem broughtAlike_of_source (hnamed : CtesNamed ctes)
    (hctes : (inferCtes ⟨.ofRecords records, profile⟩ [] ctes).outcome .start = .ok ((), behind))
    (hsame : r.ctes = behind.ctes) (hlabelled : source.isLabelled = true)
    (heverything : source.namesColumns ctes = true)
    (h : (inferSource ⟨.ofRecords records, profile⟩ source).outcome r = .ok (level, s))
    {fields : List TableField}
    (hfields : sourceFields (.ofRecords records) ctes source = .ok fields) :
    List.Forall₂ (BroughtAlike source.label) level fields := by
  have hcarry : r.CtesCarryNames := carryNames_behind hctes hsame
  have hnames : fields.map (·.field) = level.map (·.name) :=
    (names_of_source hnamed hctes hsame h hfields).eq heverything
  have hvisible : ∀ c ∈ level, sameName c.visibleTable source.label = true :=
    Source.visibleName_eq_label hlabelled ▸
      visibleTable_of_source hcarry (Source.isShown_of_isLabelled hlabelled) h
  have htables : ∀ f ∈ fields, f.table = source.label :=
    fun f hf => table_of_sourceFields hfields hf
  -- the two lists have the same names in the same order, and from here on nothing else matters
  clear hfields h
  induction level generalizing fields with
  | nil =>
    obtain rfl : fields = [] := by simpa using hnames
    exact .nil
  | cons c rest ih =>
    cases fields with
    | nil => cases hnames
    | cons f others =>
      simp only [List.map_cons, List.cons.injEq] at hnames
      refine .cons ⟨hnames.1, hvisible c List.mem_cons_self, htables f List.mem_cons_self⟩ ?_
      exact ih hnames.2 (fun d hd => hvisible d (List.mem_cons_of_mem _ hd))
        fun g hg => htables g (List.mem_cons_of_mem _ hg)

end

end QuerySignature
