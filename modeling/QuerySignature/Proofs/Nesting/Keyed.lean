import QuerySignature.Proofs.Fragments.Labels
import QuerySignature.Proofs.Sources.Declared

namespace QuerySignature

/-! # Tables with a key

A table whose primary key is one column brings the walk that column under the name of the key, and
no other column of this name. Its relation has the key for its join column.

- `keyed_of_source`: what a table with a key brings;
- `Run.Sound.keyedSources`, `Run.Sound.keyedJoins`: what a FROM clause of such tables brings;
- `readFrom_of_items`: what a projection refers to is a column that its scope has;
- `clause_of_query`: the FROM clause of a query of one branch, with its projection and relations.
-/

/-- The primary key of a table, if it is one column and no other column has its name. -/
def soleKey? (columns : List ColumnRecord) : Option ColumnRecord :=
  match columns.filter fun record => record.key == .primary with
  | [key] =>
    if columns.countP (fun record => sameName record.column key.column) = 1 then some key else none
  | _ => none

theorem soleKey?_eq_some {columns : List ColumnRecord} {key : ColumnRecord}
    (h : soleKey? columns = some key) :
    key ∈ columns ∧ key.key = .primary ∧
      (∀ record ∈ columns, record.key = .primary → record = key) ∧
      ∀ record ∈ columns, sameName record.column key.column = true → record = key := by
  unfold soleKey? at h
  split at h
  case h_2 => cases h
  case h_1 first hfilter =>
    split at h
    case isFalse => cases h
    case isTrue hcount =>
      cases h
      have hmem : ∀ record, record ∈ columns ∧ record.key = .primary ↔ record = key := by
        intro record
        have hsingle : record ∈ [key] ↔ record = key := List.mem_singleton
        rw [← hsingle, ← hfilter]
        simp
      obtain ⟨hkey, hprimary⟩ := (hmem key).2 rfl
      refine ⟨hkey, hprimary, fun record hrecord hp => (hmem record).1 ⟨hrecord, hp⟩, ?_⟩
      intro record hrecord hname
      rw [List.countP_eq_length_filter] at hcount
      obtain ⟨only, honly⟩ := List.length_eq_one_iff.1 hcount
      have hsame : ∀ other ∈ columns, sameName other.column key.column = true → other = only := by
        intro other hother hothername
        have hin : other ∈ columns.filter fun record => sameName record.column key.column :=
          List.mem_filter.2 ⟨hother, hothername⟩
        rw [honly] at hin
        exact List.mem_singleton.1 hin
      rw [hsame record hrecord hname, hsame key hkey (sameName_refl _)]

namespace Source

/-- The table of a source, without a schema in front of its name. -/
def tableName : Source → String
  | .table name _ => lastSegment name
  | .derived _ aliasName => aliasName

/-- The primary key of a source that is a table of the schema, visible under a name. -/
def key? (schema : Schema) (ctes : List Cte) : Source → Option ColumnRecord
  | .table name aliasName =>
    if (Source.table name aliasName).visibleName.isEmpty ||
        ctes.any fun cte => sameName cte.name (lastSegment name) then none
    else (schema.columnsOf? (lastSegment name)).bind soleKey?
  | .derived .. => none

end Source

/-- A column that a source with a key brings. It is named as the key exactly if it is the key. -/
structure SourceColumn.OfKeyed (x : Source) (key : ColumnRecord) (c : SourceColumn) : Prop where
  visible : sameName c.visibleTable x.visibleName = true
  primary : sameName c.name key.column = true → c.key = .primary
  name : c.key = .primary → c.name = key.column

/-- The relation of a source with a key. -/
structure Relation.OfKeyed (x : Source) (key : ColumnRecord) (relation : Relation) : Prop where
  joinColumn : relation.joinColumn = key.column
  answers : ∀ table, relation.answers table = (!table.isEmpty &&
    (sameName x.tableName table || sameName x.visibleName table))
  key : relation.key = x.visibleName

/-- What a source with a key brings: its columns, and its relation. -/
structure Source.BringsKeyed (x : Source) (key : ColumnRecord) (level : Level) : Prop where
  visible : x.visibleName.isEmpty = false
  columns : ∀ c ∈ level, c.OfKeyed x key
  relation : ∃ relation, Relation.ofSource? x level = some relation ∧ relation.OfKeyed x key

/-! ## One table -/

section

variable {records : List ColumnRecord} {ctes : List Cte} {name : String} {aliasName : Option String}
  {key : ColumnRecord} {level : Level}

/-- A table with a key is visible under a name, no common table hides it, and the key is that of its
records. -/
theorem Source.key?_table_eq_some {schema : Schema}
    (h : (Source.table name aliasName).key? schema ctes = some key) :
    (Source.table name aliasName).visibleName.isEmpty = false ∧
      (∀ cte ∈ ctes, sameName cte.name (lastSegment name) = false) ∧
      ∃ columns, schema.columnsOf? (lastSegment name) = some columns ∧ soleKey? columns = some key := by
  unfold Source.key? at h
  dsimp only at h
  split at h
  case isTrue => cases h
  case isFalse hplain =>
    simp only [Bool.or_eq_true, not_or, Bool.not_eq_true] at hplain
    refine ⟨hplain.1, fun cte hcte => ?_, Option.bind_eq_some_iff.1 h⟩
    simpa using List.any_eq_false.1 hplain.2 cte hcte

/-- A column of a table with a key, as its record declares it. -/
theorem SourceColumn.Declares.ofKeyed {columns : List ColumnRecord}
    (hcolumns : (Schema.ofRecords records).columnsOf? (lastSegment name) = some columns)
    (hsole : soleKey? columns = some key)
    (hvisible : (Source.table name aliasName).visibleName.isEmpty = false) {record : ColumnRecord}
    (hrecord : record ∈ columns) {c : SourceColumn} (h : c.Declares (aliasName.getD "") record) :
    c.OfKeyed (.table name aliasName) key := by
  obtain ⟨-, hprimary, honly, hnamed⟩ := soleKey?_eq_some hsole
  refine ⟨?_, ?_, ?_⟩
  · unfold SourceColumn.visibleTable
    rw [h.aliasName, h.table]
    cases aliasName with
    | none => exact Schema.table_of_columnsOf? hcolumns hrecord
    | some aliasName =>
      have hshown : aliasName.isEmpty = false := hvisible
      simp [hshown, Source.visibleName, Source.label]
  · intro hsame
    rw [h.key, hnamed record hrecord (h.name ▸ hsame)]
    exact hprimary
  · intro hcolumn
    rw [h.name, honly record hrecord (h.key.symm.trans hcolumn)]

/-- The relation of a table that brings its key. -/
theorem ofKeyed_of_table (hvisible : (Source.table name aliasName).visibleName.isEmpty = false)
    (hof : ∀ c ∈ level, c.OfKeyed (.table name aliasName) key)
    (hprimary : ∃ c ∈ level, c.key = .primary) :
    ∃ relation, Relation.ofSource? (.table name aliasName) level = some relation ∧
      relation.OfKeyed (.table name aliasName) key := by
  refine ⟨_, rfl, ?_, ?_, ?_⟩
  · show ((level.find? fun column => column.key == .primary).map (·.name)).getD "" = key.column
    obtain ⟨c, hc, hkey⟩ := hprimary
    have hfound : (level.find? fun column => column.key == .primary).isSome = true := by
      rw [List.find?_isSome]
      exact ⟨c, hc, by simp [hkey]⟩
    obtain ⟨found, hfind⟩ := Option.isSome_iff_exists.1 hfound
    rw [hfind]
    exact (hof found (List.mem_of_find?_eq_some hfind)).name (by simpa using List.find?_some hfind)
  · intro table
    unfold Relation.answers
    cases aliasName with
    | none =>
      -- without an alias, the table answers to its own name alone
      cases hempty : table.isEmpty with
      | true => rfl
      | false =>
        have hother : sameName "" table = false := by
          by_contra hsame
          have hsize := isEmpty_of_sameName (Bool.not_eq_false _ ▸ hsame)
          rw [hempty] at hsize
          cases hsize
        simp [Source.tableName, Source.visibleName, hother]
    | some aliasName => rfl
  · unfold Relation.key
    cases aliasName with
    | none => rfl
    | some aliasName =>
      have hshown : aliasName.isEmpty = false := hvisible
      simp [hshown, Source.visibleName, Source.label]

/-- A table with a key brings it, where the run knows no other common tables than the given ones. -/
theorem keyed_of_source {profile : Profile} {r s : Run}
    (hctes : ∀ name, (∀ cte ∈ ctes, sameName cte.name name = false) → r.cte? name = none)
    {x : Source} (hkey : x.key? (.ofRecords records) ctes = some key)
    (h : (inferSource ⟨.ofRecords records, profile⟩ x).outcome r = .ok (level, s)) :
    x.BringsKeyed key level := by
  cases x with
  | derived q aliasName => cases hkey
  | table name aliasName =>
    obtain ⟨hvisible, hnone, columns, hcolumns, hsole⟩ := Source.key?_table_eq_some hkey
    obtain ⟨_, hsame, hmade⟩ := declared_of_table (hctes _ hnone) h
    obtain rfl := Option.some.inj (hcolumns.symm.trans hsame)
    have hof : ∀ c ∈ level, c.OfKeyed (.table name aliasName) key := by
      intro c hc
      obtain ⟨record, hrecord, hdeclares⟩ := exists_partner hmade hc
      exact hdeclares.ofKeyed hcolumns hsole hvisible hrecord
    have hprimary : ∃ c ∈ level, c.key = .primary := by
      obtain ⟨hmem, hrole, -⟩ := soleKey?_eq_some hsole
      obtain ⟨c, hc, hdeclares⟩ := exists_partner hmade.flip hmem
      exact ⟨c, hc, hdeclares.key.trans hrole⟩
    exact ⟨hvisible, hof, ofKeyed_of_table hvisible hof hprimary⟩

end

/-! ## A clause of tables -/

/-- A join changes nothing of the earlier columns but whether they may be null. -/
theorem JoinKind.exists_of_mem_earlier {kind : JoinKind} {level : Level} {c : SourceColumn}
    (h : c ∈ kind.earlier level) :
    ∃ d ∈ level, c.visibleTable = d.visibleTable ∧ c.name = d.name ∧ c.key = d.key := by
  cases kind with
  | inner | left | cross => exact ⟨c, h, rfl, rfl, rfl⟩
  | right | full =>
    obtain ⟨d, hd, rfl⟩ := List.mem_map.1 h
    exact ⟨d, hd, rfl, rfl, rfl⟩

/-- Neither does it of the columns that it adds. -/
theorem JoinKind.exists_of_mem_joined {kind : JoinKind} {level : Level} {c : SourceColumn}
    (h : c ∈ kind.joined level) :
    ∃ d ∈ level, c.visibleTable = d.visibleTable ∧ c.name = d.name ∧ c.key = d.key := by
  cases kind with
  | inner | right | cross => exact ⟨c, h, rfl, rfl, rfl⟩
  | left | full =>
    obtain ⟨d, hd, rfl⟩ := List.mem_map.1 h
    exact ⟨d, hd, rfl, rfl, rfl⟩

theorem JoinCondition.mem_of_mem_added {condition : JoinCondition} {level : Level}
    {c : SourceColumn} (h : c ∈ condition.added level) : c ∈ level := by
  cases condition with
  | predicate e => exact h
  | unconditional => exact h
  | shared names => exact List.mem_of_mem_filter h

/-- What is visible behind a join was so before it, or the joined source brings it. -/
theorem JoinKind.exists_of_mem_join {kind : JoinKind} {condition : JoinCondition}
    {columns level : Level} {c : SourceColumn}
    (h : c ∈ kind.earlier columns ++ kind.joined (condition.added level)) :
    ∃ d, (d ∈ columns ∨ d ∈ level) ∧
      c.visibleTable = d.visibleTable ∧ c.name = d.name ∧ c.key = d.key := by
  rcases List.mem_append.1 h with h | h
  · obtain ⟨d, hd, halike⟩ := JoinKind.exists_of_mem_earlier h
    exact ⟨d, .inl hd, halike⟩
  · obtain ⟨d, hd, halike⟩ := JoinKind.exists_of_mem_joined h
    exact ⟨d, .inr (JoinCondition.mem_of_mem_added hd), halike⟩

/-- What a FROM clause of tables with keys makes visible, and how it relates them. -/
structure Sources.Keyed (schema : Schema) (ctes : List Cte) (xs : List Source) (clause : Sources) :
    Prop where
  columns : ∀ c ∈ clause.columns, ∃ x ∈ xs, ∃ key, x.key? schema ctes = some key ∧ c.OfKeyed x key
  relations : List.Forall₂ (fun x relation => x.visibleName.isEmpty = false ∧
    ∃ key, x.key? schema ctes = some key ∧ relation.OfKeyed x key) xs clause.relations

namespace Sources.Keyed

variable {schema : Schema} {ctes : List Cte} {xs : List Source} {clause : Sources} {x : Source}
  {key : ColumnRecord} {level : Level}

theorem empty (schema : Schema) (ctes : List Cte) : Keyed schema ctes [] .empty :=
  ⟨fun _ hc => absurd hc List.not_mem_nil, .nil⟩

/-- A source behind others, with columns as the join leaves them, and with its relation as the link
leaves it. -/
theorem snoc (h : clause.Keyed schema ctes xs) (hkey : x.key? schema ctes = some key)
    (hlevel : x.BringsKeyed key level) {columns : Level}
    (hcolumns : ∀ c ∈ columns, ∃ d, (d ∈ clause.columns ∨ d ∈ level) ∧
      c.visibleTable = d.visibleTable ∧ c.name = d.name ∧ c.key = d.key)
    (link : Relation → Relation)
    (hlink : ∀ relation : Relation, (link relation).name = relation.name ∧
      (link relation).aliasName = relation.aliasName ∧
      (link relation).joinColumn = relation.joinColumn) :
    Keyed schema ctes (xs ++ [x])
      ⟨columns, clause.relations ++ ((Relation.ofSource? x level).map link).toList⟩ := by
  refine ⟨?_, ?_⟩
  · intro c hc
    obtain ⟨d, hd, htable, hname, hrole⟩ := hcolumns c hc
    have halike : ∀ {y : Source} {k : ColumnRecord}, d.OfKeyed y k → c.OfKeyed y k := by
      intro y k hof
      refine ⟨htable ▸ hof.visible, ?_, ?_⟩
      · rw [hname, hrole]
        exact hof.primary
      · rw [hname, hrole]
        exact hof.name
    rcases hd with hd | hd
    · obtain ⟨y, hy, k, hk, hof⟩ := h.columns d hd
      exact ⟨y, List.mem_append_left _ hy, k, hk, halike hof⟩
    · exact ⟨x, List.mem_append_right _ List.mem_cons_self, key, hkey,
        halike (hlevel.columns d hd)⟩
  · obtain ⟨relation, hrelation, hof⟩ := hlevel.relation
    obtain ⟨hname, halias, hjoin⟩ := hlink relation
    rw [hrelation]
    refine List.rel_append h.relations (.cons ⟨hlevel.visible, key, hkey, ?_, ?_, ?_⟩ .nil)
    · exact hjoin.trans hof.joinColumn
    · intro table
      unfold Relation.answers
      rw [hname, halias]
      exact hof.answers table
    · unfold Relation.key
      rw [hname, halias]
      exact hof.key

theorem add (h : clause.Keyed schema ctes xs) (hkey : x.key? schema ctes = some key)
    (hlevel : x.BringsKeyed key level) : (clause.add x level).Keyed schema ctes (xs ++ [x]) := by
  refine h.snoc hkey hlevel ?_ _ ?_
  · intro c hc
    exact ⟨c, List.mem_append.1 hc, rfl, rfl, rfl⟩
  · intro relation
    cases clause.relations.head? <;> exact ⟨rfl, rfl, rfl⟩

theorem join (h : clause.Keyed schema ctes xs) (hkey : x.key? schema ctes = some key)
    (hlevel : x.BringsKeyed key level) (outer : List Level) (previous : String) (kind : JoinKind)
    (condition : JoinCondition) :
    (clause.join outer previous kind x condition level).Keyed schema ctes (xs ++ [x]) := by
  exact h.snoc hkey hlevel (fun _ => JoinKind.exists_of_mem_join) _ fun _ => ⟨rfl, rfl, rfl⟩

end Sources.Keyed

section

variable {records : List ColumnRecord} {profile : Profile} {ctes : List Cte} {behind r s : Run}
  {made : List TypeInfo} {done : Sources} {before : List Source}

/-- Listed tables with keys. -/
theorem Run.Sound.keyedSources (h : r.Sound made)
    (hctes : (inferCtes ⟨.ofRecords records, profile⟩ [] ctes).outcome .start = .ok ((), behind))
    (hsame : r.ctes = behind.ctes) (hdone : done.Matches .none made done)
    (hkeyed : done.Keyed (.ofRecords records) ctes before) {xs : List Source}
    (hxs : ∀ x ∈ xs, (x.key? (.ofRecords records) ctes).isSome = true) {listed : Sources}
    (hs : (inferSources ⟨.ofRecords records, profile⟩ done xs).outcome r = .ok (listed, s)) :
    listed.Keyed (.ofRecords records) ctes (before ++ xs) := by
  induction xs generalizing made r done before with
  | nil =>
    cases hs
    simpa using hkeyed
  | cons x rest ih =>
    obtain ⟨level, t, made₁, hsource, hs, -, hsound₁, hctes₁, hadded⟩ := h.listStep hdone hs
    obtain ⟨key, hkey⟩ := Option.isSome_iff_exists.1 (hxs x List.mem_cons_self)
    have hlevel := keyed_of_source (fun _ => hidden_of_commonTables hctes hsame) hkey hsource
    have hall := ih hsound₁ (hctes₁.trans hsame) hadded (hkeyed.add hkey hlevel)
      (fun y hy => hxs y (List.mem_cons_of_mem _ hy)) hs
    simpa using hall

/-- Joined tables with keys. -/
theorem Run.Sound.keyedJoins (h : r.Sound made)
    (hctes : (inferCtes ⟨.ofRecords records, profile⟩ [] ctes).outcome .start = .ok ((), behind))
    (hsame : r.ctes = behind.ctes) (hdone : done.Matches .none made done)
    (hkeyed : done.Keyed (.ofRecords records) ctes before) {previous : String} {js : List Join}
    (hjs : ∀ j ∈ js, (j.source.key? (.ofRecords records) ctes).isSome = true) {joined : Sources}
    (hs : (inferJoins ⟨.ofRecords records, profile⟩ [] done previous js).outcome r =
      .ok (joined, s)) :
    joined.Keyed (.ofRecords records) ctes (before ++ js.map (·.source)) := by
  induction js generalizing made r done before previous with
  | nil =>
    cases hs
    simpa using hkeyed
  | cons j rest ih =>
    obtain ⟨level, t, u, made₁, hsource, -, hs, -, hsound₁, hctes₁, hjoined⟩ :=
      h.joinStep nothing_outer hdone hs
    obtain ⟨key, hkey⟩ := Option.isSome_iff_exists.1 (hjs j List.mem_cons_self)
    have hlevel := keyed_of_source (fun _ => hidden_of_commonTables hctes hsame) hkey hsource
    have hall := ih hsound₁ (hctes₁.trans hsame) hjoined
      (hkeyed.join hkey hlevel [] previous j.kind j.condition)
      (fun k hk => hjs k (List.mem_cons_of_mem _ hk)) hs
    simpa using hall

end

/-! ## What is projected -/

/-- An output column that refers to nothing but a column of the scope. -/
structure OutputColumn.ReadFrom (scope : Scope) (c : OutputColumn) : Prop where
  table : c.table = (c.source.map SourceColumn.visibleTable).getD ""
  source : ∀ column, c.source = some column → ∃ level ∈ scope.levels, column ∈ level

/-- What a projection refers to is a column that its scope has. -/
theorem readFrom_of_items {setting : Setting} {scope : Scope} {items : List Item} {r s : Run}
    {cs : List OutputColumn} (h : (inferItems setting scope items).outcome r = .ok (cs, s)) :
    ∀ c ∈ cs, c.ReadFrom scope := by
  refine forall_of_items (fun column hcolumn var => ⟨rfl, ?_⟩)
    (fun value aliasName _ r inferred s hinferred => ⟨rfl, fun column hsource => ?_⟩) h
  · rintro _ ⟨⟩
    exact ⟨scope.columns, List.mem_cons_self, hcolumn⟩
  · obtain ⟨c, hmeaning, -⟩ := reference_of_source hinferred hsource
    exact mem_of_resolveIn (resolveIn_of_resolve hmeaning)

/-- The FROM clause of a query of one branch: what the projection refers to is one of its columns,
and the relations are its own, with their join columns under the names that they are projected
with. -/
theorem clause_of_query {setting : Setting} {q : Select} {b : Branch} (hbranch : q.branches = [b])
    {result : QueryResult} {run : Run}
    (h : (inferQuery setting [] q).outcome .start = .ok (result, run)) :
    ∃ behind listed rs joined rj,
      (inferCtes setting [] q.ctes).outcome .start = .ok ((), behind) ∧
      (inferSources setting .empty b.sources).outcome behind = .ok (listed, rs) ∧
      (inferJoins setting [] listed (Sources.lastName b.sources) b.joins).outcome rs =
        .ok (joined, rj) ∧
      (∀ c ∈ result.columns, c.ReadFrom ⟨joined.columns, []⟩) ∧
      result.relations = renameJoinColumns result.columns joined.relations := by
  obtain ⟨b', rest, behind, front, after, others, hbranch', hctes, hfront, hcolumns, hrelations,
    hothers⟩ := exists_front h
  obtain ⟨rfl, rfl⟩ := List.cons.inj (hbranch.symm.trans hbranch')
  obtain rfl := hothers rfl
  obtain ⟨listed, rs, rj, ri, found, hsources, hjoins, hitems, -⟩ := clauses_of_front hfront
  have hall := Except.ok.inj hcolumns
  refine ⟨behind, listed, rs, front.1, rj, hctes, hsources, hjoins, ?_, hall ▸ hrelations⟩
  rw [← hall]
  intro c hc
  obtain ⟨item, hitem, rfl⟩ := List.mem_map.1 hc
  exact ⟨(readFrom_of_items hitems item hitem).table, (readFrom_of_items hitems item hitem).source⟩

end QuerySignature
