import QuerySignature.Dynamic.Split
import QuerySignature.Proofs.Sources.Place

namespace QuerySignature

/-! # Names of source columns

The columns that a source brings are looked up twice: the walk over a query finds them with their
variables, and the cutting into fragments reads their names off the statement and the schema. The
second way knows nothing behind a star.

- `names_of_query`: what is read off the items of a query is found among its columns, in order, and
  is all of them if no item is a star;
- `names_of_source`: the same for a source, provided that no two common tables share a name.
-/

/-- Whether the first branch of a query names all its columns. -/
def Select.namesColumns (query : Select) : Bool :=
  match query.branches with
  | [] => true
  | branch :: _ => branch.items.all fun item => (itemName? item).isSome

/-- The query whose columns a source has, if it is not a table of the schema. -/
def Source.reads? (ctes : List Cte) : Source → Option Select
  | .derived query _ => some query
  | .table name _ =>
    (ctes.find? fun cte => sameName cte.name (lastSegment name)).map (·.query)

/-- Whether all columns of a source are named: those of a table are. -/
def Source.namesColumns (ctes : List Cte) (source : Source) : Bool :=
  (source.reads? ctes).all Select.namesColumns

/-- What can be read off a list of names: a part in order, and all of it if nothing is left out. -/
structure ReadOff (read found : List String) (everything : Bool) : Prop where
  sublist : read.Sublist found
  eq : everything = true → read = found

namespace ReadOff

theorem refl (names : List String) (everything : Bool) : ReadOff names names everything :=
  ⟨List.Sublist.refl names, fun _ => rfl⟩

theorem append {read found read' found' : List String} {everything everything' : Bool}
    (h : ReadOff read found everything) (h' : ReadOff read' found' everything') :
    ReadOff (read ++ read') (found ++ found') (everything && everything') := by
  constructor
  · exact h.sublist.append h'.sublist
  · intro hall
    obtain ⟨hfirst, hsecond⟩ := (Bool.and_eq_true _ _).mp hall
    rw [h.eq hfirst, h'.eq hsecond]

end ReadOff

/-! ## Queries -/

theorem outputName_eq (value : Expr) (aliasName : Option String) :
    aliasName.getD ((value.column?.map (·.name)).getD value.text) = outputName value aliasName := by
  unfold outputName
  cases aliasName with
  | some name => rfl
  | none => cases value.column? <;> rfl

theorem names_of_item {setting : Setting} {scope : Scope} {item : Item} {r s : Run}
    {columns : List OutputColumn}
    (h : (inferItem setting scope item).outcome r = .ok (columns, s)) :
    ReadOff (itemName? item).toList (columns.map (·.name)) (itemName? item).isSome := by
  cases item with
  | star => exact ⟨List.nil_sublist _, fun hsome => nomatch hsome⟩
  | tableStar table => exact ⟨List.nil_sublist _, fun hsome => nomatch hsome⟩
  | expr value aliasName =>
    obtain ⟨inferred, -, rfl⟩ := value_of_item h
    simp only [itemName?, outputName_eq]
    exact .refl _ _

theorem names_of_items {setting : Setting} {scope : Scope} {items : List Item} {r s : Run}
    {columns : List OutputColumn}
    (h : (inferItems setting scope items).outcome r = .ok (columns, s)) :
    ReadOff (items.filterMap itemName?) (columns.map (·.name))
      (items.all fun item => (itemName? item).isSome) := by
  induction items generalizing r s columns with
  | nil =>
    cases h
    exact .refl _ _
  | cons item rest ih =>
    obtain ⟨first, t, others, hfirst, hothers, rfl⟩ := items_of_cons h
    have hboth := (names_of_item hfirst).append (ih hothers)
    have hnames : (item :: rest).filterMap itemName? =
        (itemName? item).toList ++ rest.filterMap itemName? := by
      cases hitem : itemName? item <;> simp [hitem]
    rw [hnames, List.map_append, List.all_cons]
    exact hboth

/-- What a column keeps when it is united with another, the columns of a UNION have from the first
branch. -/
theorem map_unionColumns {α : Type} {f : OutputColumn → α} (hf : ∀ c d, f (c.union d) = f c)
    {columns found : List OutputColumn} {others : List BranchResult}
    (h : unionColumns columns others = .ok found) : found.map f = columns.map f := by
  induction others generalizing columns with
  | nil =>
    cases h
    rfl
  | cons other rest ih =>
    unfold unionColumns at h
    split at h
    case isTrue hlength =>
      rw [ih h, List.map_zipWith]
      simp only [hf]
      rw [← List.map_uncurry_zip_eq_zipWith]
      have hfst : (columns.zip other.columns).map (Function.uncurry fun c _ => f c) =
          ((columns.zip other.columns).map Prod.fst).map f := by
        rw [List.map_map]
        rfl
      rw [hfst, List.map_fst_zip (by omega)]
    case isFalse => cases h

/-- A UNION has the names of its first branch. -/
theorem names_unionColumns {columns found : List OutputColumn} {others : List BranchResult}
    (h : unionColumns columns others = .ok found) :
    found.map (·.name) = columns.map (·.name) :=
  map_unionColumns (fun _ _ => rfl) h

/-- A column that the WHERE proves not null keeps everything else. -/
theorem map_proveColumns {α : Type} {f : OutputColumn → α} (hf : ∀ c n, f { c with notNull := n } = f c)
    (scope : Scope) (criteria : Option Expr) (columns : List OutputColumn) :
    (proveColumns scope criteria columns).map f = columns.map f := by
  rw [proveColumns, List.map_map]
  exact List.map_congr_left fun c _ => hf c _

theorem names_of_query {setting : Setting} {outer : List Level} {q : Select} {r s : Run}
    {result : QueryResult} (h : (inferQuery setting outer q).outcome r = .ok (result, s)) :
    ReadOff (projectedNames q) (result.columns.map (·.name)) q.namesColumns := by
  obtain ⟨branch, rest, rc, front, rf, others, hbranches, -, hfront, hcolumns, -, -⟩ := exists_front h
  obtain ⟨listed, rs, rj, ri, found, -, -, hitems, -⟩ := clauses_of_front hfront
  have hnames : result.columns.map (·.name) = front.2.map (·.name) :=
    (names_unionColumns hcolumns).trans (map_proveColumns (fun _ _ => rfl) _ _ _)
  rw [hnames]
  unfold projectedNames Select.namesColumns
  rw [hbranches]
  exact names_of_items hitems

theorem names_levelOf (table : String) (columns : List OutputColumn) :
    (levelOf table columns).map (·.name) = columns.map (·.name) := by
  unfold levelOf
  rw [List.map_map]
  rfl

/-! ## Common tables -/

/-- No two common tables share a name. -/
def CtesNamed (ctes : List Cte) : Prop :=
  ctes.Pairwise fun earlier later => sameName earlier.name later.name = false

instance (ctes : List Cte) : Decidable (CtesNamed ctes) :=
  inferInstanceAs (Decidable (ctes.Pairwise fun earlier later =>
    sameName earlier.name later.name = false))

/-- Behind common tables of different names, each is known by the columns of its query. -/
theorem cte?_of_find {setting : Setting} {outer : List Level} {ctes : List Cte}
    (hnamed : CtesNamed ctes) {r s : Run}
    (h : (inferCtes setting outer ctes).outcome r = .ok ((), s)) {name : String} {cte : Cte}
    (hfind : ctes.find? (fun cte => sameName cte.name name) = some cte) :
    ∃ level, s.cte? name = some level ∧
      ReadOff (projectedNames cte.query) (level.map (·.name)) cte.query.namesColumns := by
  induction ctes generalizing r with
  | nil => cases hfind
  | cons first rest ih =>
    rw [outcome_inferCtes_cons] at h
    rcases bind_eq_ok.1 h with ⟨⟨result, t⟩, hquery, h⟩
    obtain ⟨hfirst, hrest⟩ := List.pairwise_cons.1 hnamed
    cases hname : sameName first.name name with
    | true =>
      obtain rfl : first = cte := by simpa [hname] using hfind
      -- nothing behind has the name, so what the first one declared stays
      have hothers : ∀ other ∈ rest, sameName other.name name = false := by
        intro other hother
        by_contra hsame
        have hsame : sameName other.name name = true := by simpa using hsame
        have hboth := sameName_trans hname (sameName_symm hsame)
        rw [hfirst other hother] at hboth
        cases hboth
      refine ⟨levelOf first.name result.columns, ?_, ?_⟩
      · rw [cte?_of_commonTables h hothers, Run.cte?_declare, hname]
        rfl
      · rw [names_levelOf]
        exact names_of_query hquery
    | false =>
      rw [List.find?_cons, hname] at hfind
      exact ih hrest h hfind

/-! ## Sources -/

theorem names_freshColumns {aliasName : String} {records : List ColumnRecord} {r s : Run}
    {level : Level} (h : (freshColumns aliasName records).outcome r = .ok (level, s)) :
    level.map (·.name) = records.map (·.column) :=
  map_eq_of_rel (rel_freshColumns (R := fun record c => c.name = record.column)
    (fun _ _ _ _ => rfl) h) fun _ _ hname => hname

theorem map_field_named (table : String) (names : List String) :
    (names.map fun name => (⟨table, name⟩ : TableField)).map (·.field) = names := by
  rw [List.map_map]
  exact List.map_id names

/-- The columns read off a source are found among those that it brings. -/
theorem names_of_source {setting : Setting} {ctes : List Cte} (hnamed : CtesNamed ctes)
    {behind : Run} (hctes : (inferCtes setting [] ctes).outcome .start = .ok ((), behind))
    {source : Source} {r s : Run} (hsame : r.ctes = behind.ctes) {level : Level}
    (h : (inferSource setting source).outcome r = .ok (level, s)) {fields : List TableField}
    (hfields : sourceFields setting.schema ctes source = .ok fields) :
    ReadOff (fields.map (·.field)) (level.map (·.name)) (source.namesColumns ctes) := by
  cases source with
  | derived q aliasName =>
    cases hfields
    obtain ⟨inner, table, hquery, rfl⟩ := outcome_derived (q := q) rfl h
    rw [map_field_named, names_levelOf]
    exact names_of_query hquery
  | table name aliasName =>
    unfold inferSource at h
    unfold sourceFields at hfields
    cases hfind : ctes.find? fun cte => sameName cte.name (lastSegment name) with
    | some cte =>
      obtain ⟨columns, hcte, hnames⟩ := cte?_of_find hnamed hctes hfind
      simp only [hfind, Except.ok.injEq] at hfields
      subst hfields
      obtain rfl := level_of_commonTable ((Run.cte?_congr hsame _).trans hcte) h
      rw [map_field_named]
      have hsame : (columns.map fun column => { column with aliasName := aliasName.getD "" }).map
          (·.name) = columns.map (·.name) := by
        rw [List.map_map]
        rfl
      have heverything : (Source.table name aliasName).namesColumns ctes =
          cte.query.namesColumns := by
        simp [Source.namesColumns, Source.reads?, hfind]
      rw [hsame, heverything]
      exact hnames
    | none =>
      -- no common table has the name, so either way it is looked up in the schema
      have hother : ∀ cte ∈ ctes, sameName cte.name (lastSegment name) = false := by
        simpa using List.find?_eq_none.1 hfind
      obtain ⟨records, hrecords, hfresh⟩ :=
        records_of_table (hidden_of_commonTables hctes hsame hother) h
      simp only [hfind, hrecords, Except.ok.injEq] at hfields
      subst hfields
      rw [map_field_named, names_freshColumns hfresh]
      exact .refl _ _

/-- The columns read off a source carry its label. -/
theorem table_of_sourceFields {schema : Schema} {ctes : List Cte} {source : Source}
    {fields : List TableField} (h : sourceFields schema ctes source = .ok fields)
    {field : TableField} (hfield : field ∈ fields) : field.table = source.label := by
  have hnamed : ∀ names : List String,
      field ∈ names.map (fun name => (⟨source.label, name⟩ : TableField)) →
        field.table = source.label := by
    intro names hmem
    obtain ⟨name, -, rfl⟩ := List.mem_map.1 hmem
    rfl
  unfold sourceFields at h
  cases source with
  | derived q aliasName =>
    cases h
    exact hnamed _ hfield
  | table name aliasName =>
    cases hfind : ctes.find? fun cte => sameName cte.name (lastSegment name) with
    | some cte =>
      simp only [hfind, Except.ok.injEq] at h
      exact hnamed _ (h ▸ hfield)
    | none =>
      simp only [hfind] at h
      cases hcolumns : schema.columnsOf? (lastSegment name) with
      | none => simp [hcolumns] at h
      | some records =>
        simp only [hcolumns, Except.ok.injEq] at h
        exact hnamed _ (h ▸ hfield)

end QuerySignature
