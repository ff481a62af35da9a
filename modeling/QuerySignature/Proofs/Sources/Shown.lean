import QuerySignature.Proofs.Nesting.Hanging
import QuerySignature.Proofs.Sources.Declared

namespace QuerySignature

/-! # What a FROM clause shows

The walk keeps the columns of a clause in one level. Each join changes those that are there, reads
its condition against them, and puts its own behind. Here the clause is described source by source,
and each column by the joins around it.

- `contributes_of_source`: what a source contributes, by its kind;
- `shows_of_from`: a clause shows what its sources contribute, but for the columns that a USING list
  names, and with those nullable whose rows an outer join may miss.
-/

/-! ## What a source contributes -/

/-- The name under which the columns of a source are seen. An alias that is empty is none. -/
def Source.seenName : Source → String
  | .table name aliasName =>
    if (aliasName.getD "").isEmpty then lastSegment name else aliasName.getD ""
  | .derived _ aliasName => aliasName

/-- Wherever there is a visible name, columns are seen under it. -/
theorem Source.seenName_eq_visibleName {source : Source} (h : source.visibleName ≠ "") :
    source.seenName = source.visibleName := by
  cases source with
  | derived q aliasName => rfl
  | table name aliasName =>
    cases aliasName with
    | none => rfl
    | some aliasName =>
      have hnamed : aliasName ≠ "" := h
      simp [seenName, hnamed, visibleName, label]

/-- The columns that a source brings where these common tables are known: a common table those that
it was declared with, a table of the schema one for each record, and a derived table the output
columns of its query. -/
inductive Contributes (setting : Setting) (ctes : List (String × Level)) : Source → Level → Prop
  | commonTable {name : String} {aliasName : Option String} {entry : String × Level}
      (found : ctes.find? (fun entry => sameName entry.1 (lastSegment name)) = some entry) :
    Contributes setting ctes (.table name aliasName)
      (entry.2.map fun column => { column with aliasName := aliasName.getD "" })
  | table {name : String} {aliasName : Option String} {records : List ColumnRecord} {level : Level}
      (hidden : ctes.find? (fun entry => sameName entry.1 (lastSegment name)) = none)
      (known : setting.schema.columnsOf? (lastSegment name) = some records)
      (declared : List.Forall₂ (SourceColumn.Declares (aliasName.getD "")) records level) :
    Contributes setting ctes (.table name aliasName) level
  | derived {q : Select} {aliasName : String} {before behind : Run} {result : QueryResult}
      (same : before.ctes = ctes)
      (read : (inferQuery setting [] q).outcome before = .ok (result, behind)) :
    Contributes setting ctes (.derived q aliasName) (levelOf aliasName result.columns)

theorem contributes_of_source {setting : Setting} {source : Source} {r s : Run} {level : Level}
    (h : (inferSource setting source).outcome r = .ok (level, s)) :
    Contributes setting r.ctes source level := by
  cases source with
  | derived q aliasName =>
    obtain ⟨result, hquery, rfl⟩ := query_of_derived h
    exact .derived rfl hquery
  | table name aliasName =>
    unfold inferSource at h
    rcases columns_of_table h with ⟨columns, hcte, -, rfl⟩ | ⟨hhidden, records, hknown, hfresh⟩
    · obtain ⟨entry, hfind, rfl⟩ := Option.map_eq_some_iff.1 hcte
      exact .commonTable hfind
    · exact .table (Option.map_eq_none_iff.1 hhidden) hknown (declared_of_freshColumns hfresh)

/-- The columns of a source are seen under the name that it is seen by. -/
theorem seen_of_source {records : List ColumnRecord} {profile : Profile} {source : Source}
    {r s : Run} {level : Level} (hr : r.CtesCarryNames)
    (h : (inferSource ⟨.ofRecords records, profile⟩ source).outcome r = .ok (level, s)) :
    ∀ c ∈ level, sameName c.visibleTable source.seenName = true := by
  intro c hc
  cases source with
  | derived q aliasName =>
    obtain ⟨result, -, rfl⟩ := query_of_derived h
    obtain ⟨column, -, rfl⟩ := List.mem_map.1 hc
    exact sameName_refl aliasName
  | table name aliasName =>
    unfold inferSource at h
    obtain ⟨halias, htable⟩ := table_of_tableColumns hr h c hc
    simp only [SourceColumn.visibleTable, Source.seenName, halias]
    split
    · exact htable
    · exact sameName_refl _

/-! ## Nullability -/

/-- How a clause shows a column that a source brings: as it is, but not null only if its own join
does not make up rows for it, and no later join makes up rows for all before it. -/
structure ShownAs (own : JoinKind) (later : List JoinKind) (brought shown : SourceColumn) : Prop where
  same : shown = { brought with notNull := shown.notNull }
  notNull : shown.notNull = true ↔ brought.notNull = true ∧ own ≠ .left ∧ own ≠ .full ∧
    ∀ kind ∈ later, kind ≠ .right ∧ kind ≠ .full

namespace ShownAs

variable {own : JoinKind} {later : List JoinKind} {level columns : Level}

/-- The columns of a joined source, with no join behind. -/
theorem joined (kind : JoinKind) (level : Level) :
    List.Forall₂ (ShownAs kind []) level (kind.joined level) := by
  have hsame (h : kind ≠ .left ∧ kind ≠ .full) : List.Forall₂ (ShownAs kind []) level level :=
    List.forall₂_same.2 fun column _ => ⟨rfl, by simp [h.1, h.2]⟩
  have hnullable (h : kind = .left ∨ kind = .full) :
      List.Forall₂ (ShownAs kind []) level (level.map SourceColumn.nullable) := by
    refine List.forall₂_map_right_iff.2 (List.forall₂_same.2 fun column _ => ⟨rfl, ?_⟩)
    rcases h with rfl | rfl <;> simp [SourceColumn.nullable]
  cases kind with
  | left | full => exact hnullable (by decide)
  | inner | right | cross => exact hsame (by decide)

/-- One more join behind. -/
theorem earlier (h : List.Forall₂ (ShownAs own later) level columns) (kind : JoinKind) :
    List.Forall₂ (ShownAs own (later ++ [kind])) level (kind.earlier columns) := by
  have hsame (hkind : kind ≠ .right ∧ kind ≠ .full) :
      List.Forall₂ (ShownAs own (later ++ [kind])) level columns := by
    refine h.imp fun brought shown hshown => ⟨hshown.same, ?_⟩
    rw [hshown.notNull, List.forall_mem_append, List.forall_mem_singleton, and_iff_left hkind]
  have hnullable (hkind : kind = .right ∨ kind = .full) :
      List.Forall₂ (ShownAs own (later ++ [kind])) level (columns.map SourceColumn.nullable) := by
    refine List.forall₂_map_right_iff.2 (h.imp fun brought shown hshown => ⟨?_, ?_⟩)
    · rw [SourceColumn.nullable, hshown.same]
    · rcases hkind with rfl | rfl <;> simp [SourceColumn.nullable]
  cases kind with
  | right | full => exact hnullable (by decide)
  | inner | left | cross => exact hsame (by decide)

end ShownAs

/-! ## The clause -/

/-- The sources of a branch as joins in a row. A listed source is joined to those before it without
a condition. -/
def Branch.steps (branch : Branch) : List Join :=
  branch.sources.map (fun source => ⟨.cross, source, .unconditional⟩) ++ branch.joins

/-- What a FROM clause shows, source by source: the columns that each contributes, seen under its
name, without those that its USING list names, as the joins leave them. -/
inductive Shows (setting : Setting) (ctes : List (String × Level)) : List Join → Level → Prop
  | nil : Shows setting ctes [] []
  | cons {join : Join} {rest : List Join} {level shown others : Level}
      (contributes : Contributes setting ctes join.source level)
      (seen : ∀ c ∈ level, sameName c.visibleTable join.source.seenName = true)
      (own : List.Forall₂ (ShownAs join.kind (rest.map (·.kind))) (join.condition.added level) shown)
      (behind : Shows setting ctes rest others) :
    Shows setting ctes (join :: rest) (shown ++ others)

/-- A column that a clause shows, with the source that brings it. -/
theorem Shows.exists_source {setting : Setting} {ctes : List (String × Level)} {steps : List Join}
    {columns : Level} (h : Shows setting ctes steps columns) {d : SourceColumn} (hd : d ∈ columns) :
    ∃ k ∈ steps, ∃ level, Contributes setting ctes k.source level ∧
      sameName d.visibleTable k.source.seenName = true ∧
      ∃ brought ∈ k.condition.added level, d.name = brought.name := by
  induction h with
  | nil => exact absurd hd List.not_mem_nil
  | @cons j rest level shown others contributes seen own _ ih =>
    rcases List.mem_append.1 hd with hd | hd
    · obtain ⟨brought, hbrought, hshown⟩ := exists_partner own hd
      refine ⟨j, List.mem_cons_self, level, contributes, ?_, brought, hbrought, ?_⟩
      · rw [hshown.same]
        exact seen brought (JoinCondition.mem_of_mem_added hbrought)
      · rw [hshown.same]
    · obtain ⟨k, hk, hsource⟩ := ih hd
      exact ⟨k, List.mem_cons_of_mem _ hk, hsource⟩

theorem JoinKind.earlier_append (kind : JoinKind) (xs ys : Level) :
    kind.earlier (xs ++ ys) = kind.earlier xs ++ kind.earlier ys := by
  cases kind <;> simp [earlier]

/-- One more source. -/
theorem Shows.snoc {setting : Setting} {ctes : List (String × Level)} {steps : List Join}
    {columns : Level} (h : Shows setting ctes steps columns) (join : Join) {level : Level}
    (contributes : Contributes setting ctes join.source level)
    (seen : ∀ c ∈ level, sameName c.visibleTable join.source.seenName = true) :
    Shows setting ctes (steps ++ [join])
      (join.kind.earlier columns ++ join.kind.joined (join.condition.added level)) := by
  have hown := ShownAs.joined join.kind (join.condition.added level)
  induction h with
  | nil =>
    have hnothing : join.kind.earlier [] = [] := by cases join.kind <;> rfl
    have hone : Shows setting ctes [join]
        (join.kind.joined (join.condition.added level) ++ []) := .cons contributes seen hown .nil
    rwa [List.append_nil, ← List.nil_append (join.kind.joined _), ← hnothing] at hone
  | cons contributes' seen' own' _ ih =>
    -- the new join changes what the first source shows, and all that is behind it
    rw [JoinKind.earlier_append, List.append_assoc, List.cons_append]
    refine .cons contributes' seen' ?_ ih
    rw [List.map_append]
    exact ShownAs.earlier own' join.kind

theorem Run.CtesCarryNames.of_same {r s : Run} (h : r.CtesCarryNames) (hsame : s.ctes = r.ctes) :
    s.CtesCarryNames := by
  unfold Run.CtesCarryNames
  rw [hsame]
  exact h

section

variable {records : List ColumnRecord} {profile : Profile} {ctes : List (String × Level)}
  {steps : List Join} {done : Sources} {r s : Run}

/-- Listed sources. The common tables stay those that were known, so that each is read as it is. -/
theorem shows_of_sources (hctes : r.ctes = ctes) (hnames : r.CtesCarryNames)
    (hdone : Shows ⟨.ofRecords records, profile⟩ ctes steps done.columns) {xs : List Source}
    {listed : Sources}
    (h : (inferSources ⟨.ofRecords records, profile⟩ done xs).outcome r = .ok (listed, s)) :
    s.ctes = ctes ∧ Shows ⟨.ofRecords records, profile⟩ ctes
      (steps ++ xs.map fun source => ⟨.cross, source, .unconditional⟩) listed.columns := by
  induction xs generalizing r done steps with
  | nil =>
    cases h
    exact ⟨hctes, by simpa using hdone⟩
  | cons x rest ih =>
    rw [outcome_inferSources_cons] at h
    obtain ⟨⟨level, t⟩, hsource, h⟩ := bind_eq_ok.1 h
    have hnext := hdone.snoc ⟨.cross, x, .unconditional⟩
      (hctes ▸ contributes_of_source hsource) (seen_of_source hnames hsource)
    have hall := ih ((KeepsCtes.source _ x).of_outcome hsource |>.trans hctes)
      (hnames.of_kept (KeepsCtes.source _ x) hsource) hnext h
    simpa using hall

/-- Joined sources behind others. -/
theorem shows_of_joins (hctes : r.ctes = ctes) (hnames : r.CtesCarryNames)
    (hdone : Shows ⟨.ofRecords records, profile⟩ ctes steps done.columns) {outer : List Level}
    {previous : String} {js : List Join} {joined : Sources}
    (h : (inferJoins ⟨.ofRecords records, profile⟩ outer done previous js).outcome r =
      .ok (joined, s)) :
    s.ctes = ctes ∧ Shows ⟨.ofRecords records, profile⟩ ctes (steps ++ js) joined.columns := by
  induction js generalizing r done steps previous with
  | nil =>
    cases h
    exact ⟨hctes, by simpa using hdone⟩
  | cons j rest ih =>
    obtain ⟨level, t, u, hsource, hcondition, h⟩ := join_of_cons h
    -- the condition may hold queries of its own, but leaves the common tables as they are
    have hkeeps := KeepsCtes.condition ⟨.ofRecords records, profile⟩
      ⟨done.columns ++ level, outer⟩ j.condition
    have hnext := hdone.snoc j (hctes ▸ contributes_of_source hsource)
      (seen_of_source hnames hsource)
    have hsame : u.ctes = ctes :=
      (hkeeps.of_outcome hcondition).trans (((KeepsCtes.source _ _).of_outcome hsource).trans hctes)
    have hall := ih hsame ((hnames.of_kept (KeepsCtes.source _ _) hsource).of_kept hkeeps hcondition)
      hnext h
    simpa using hall

end

/-- The columns of a FROM clause that can be read are, in the order of its sources, those that each
contributes under its name, but for those of a joined source that its USING list names. A column is
not null if and only if its source declares it so, its own join is neither LEFT nor FULL, and no
later join is RIGHT or FULL. -/
theorem shows_of_from {records : List ColumnRecord} {profile : Profile} {outer : List Level}
    {branch : Branch} {r s : Run} {clause : Sources} (hnames : r.CtesCarryNames)
    (h : (inferFrom ⟨.ofRecords records, profile⟩ outer branch).outcome r = .ok (clause, s)) :
    Shows ⟨.ofRecords records, profile⟩ r.ctes branch.steps clause.columns := by
  unfold inferFrom at h
  rw [Analyze.outcome_bind] at h
  obtain ⟨⟨listed, t⟩, hsources, hjoins⟩ := bind_eq_ok.1 h
  obtain ⟨hsame, hlisted⟩ := shows_of_sources rfl hnames .nil hsources
  exact (shows_of_joins hsame (hnames.of_same hsame) hlisted hjoins).2

/-- `FROM mytable1 a, (SELECT id FROM mytable2) d INNER JOIN mytable3 USING (ID) RIGHT JOIN
app.mytable2 b ON b.id = a.id LEFT JOIN mytable1 ON mytable1.id = b.id`. -/
def Branch.outerJoined : Branch :=
  ⟨false, [.star], [.table "mytable1" (some "a"),
      .derived ⟨[], [⟨false, [.expr (.column ⟨none, "id"⟩) none], [.table "mytable2" none], [], none,
        [], none⟩], [], none⟩ "d"],
    [⟨.inner, .table "mytable3" none, .shared ["ID"]⟩,
      ⟨.right, .table "app.mytable2" (some "b"),
        .predicate (.compare .eq (columnOf "b" "id") (columnOf "a" "id"))⟩,
      ⟨.left, .table "mytable1" none,
        .predicate (.compare .eq (columnOf "mytable1" "id") (columnOf "b" "id"))⟩],
    none, [], none⟩

/-- All identifiers are declared not null, and only that of the table joined last but one is seen so.
The USING list takes that of the third source. -/
theorem shows_of_from_outerJoined : ∃ clause after,
    (inferFrom ⟨.ofRecords threeTables, .mysql⟩ [] .outerJoined).outcome .start =
      .ok (clause, after) ∧
    clause.columns.map (fun column => (column.visibleTable, column.name, column.notNull)) =
      [("a", "id", false), ("d", "id", false), ("mytable3", "double_value", false),
        ("b", "id", true), ("mytable1", "id", false)] ∧
    Shows ⟨.ofRecords threeTables, .mysql⟩ [] Branch.outerJoined.steps clause.columns := by
  have hcolumns : (((inferFrom ⟨.ofRecords threeTables, .mysql⟩ [] .outerJoined).outcome
      .start).map fun reached => reached.1.columns.map fun column =>
        (column.visibleTable, column.name, column.notNull)).toOption =
      some [("a", "id", false), ("d", "id", false), ("mytable3", "double_value", false),
        ("b", "id", true), ("mytable1", "id", false)] := by
    decide +kernel
  have hnames : Run.start.CtesCarryNames := fun _ hentry => absurd hentry List.not_mem_nil
  cases hclause : (inferFrom ⟨.ofRecords threeTables, .mysql⟩ [] .outerJoined).outcome .start with
  | error e =>
    rw [hclause] at hcolumns
    cases hcolumns
  | ok reached =>
    obtain ⟨clause, after⟩ := reached
    rw [hclause] at hcolumns
    exact ⟨clause, after, rfl, Option.some.inj hcolumns, shows_of_from hnames hclause⟩

end QuerySignature
