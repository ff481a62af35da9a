import QuerySignature.Proofs.Behind.Items
import QuerySignature.Proofs.Inlining.Rest
import QuerySignature.Proofs.Sources.Names
import QuerySignature.Proofs.Sources.Shown

namespace QuerySignature

/-! # Stars written out

A star stands for columns of the FROM clause. Each of them may be written in its place, qualified by
the name that its table is seen under. The reference then means that column and no other, provided that
names tell the columns of the clause apart.

- `resolve_inFull`: where names tell the columns apart, each is what its reference means;
- `pairwise_apart_of_shows`: they do so if the sources have different names, and the columns of each;
- `describe_writtenOut`: writing stars out changes nothing in a description but its text.
-/

/-! ## References in full -/

namespace SourceColumn

/-- The reference to a column by its name and that of its table. -/
def inFull (c : SourceColumn) : ColumnRef := ⟨some c.visibleTable, c.name⟩

/-- A column as an item of a projection. -/
def asItem (c : SourceColumn) : Item := .expr (.column c.inFull) none

/-- The reference to either of two columns is none to the other. -/
def Apart (c d : SourceColumn) : Prop :=
  d.answers c.visibleTable c.name = false ∧ c.answers d.visibleTable d.name = false

theorem answers_inFull (c : SourceColumn) : c.answers c.visibleTable c.name = true := by
  simp [answers, isOf]

/-- Columns of different names are told apart. -/
theorem Apart.of_name {c d : SourceColumn} (h : sameName c.name d.name = false) : c.Apart d := by
  have h' : sameName d.name c.name = false := by rw [sameName_comm, h]
  simp [Apart, answers, h, h']

/-- So are columns of tables that have different names, unless one of these is empty. -/
theorem Apart.of_table {c d : SourceColumn} (h : sameName c.visibleTable d.visibleTable = false)
    (hc : c.visibleTable ≠ "") (hd : d.visibleTable ≠ "") : c.Apart d := by
  have h' : sameName d.visibleTable c.visibleTable = false := by rw [sameName_comm, h]
  simp [Apart, answers, isOf, h, h', hc, hd]

end SourceColumn

/-- Of columns that are told apart, the reference to one is answered by no other. -/
theorem answers_of_apart {level : Level} (hapart : level.Pairwise SourceColumn.Apart)
    {c : SourceColumn} (hc : c ∈ level) : level.answers c.inFull = [c] := by
  unfold Level.answers
  show level.filter (fun d => d.answers c.visibleTable c.name) = [c]
  induction level with
  | nil => exact absurd hc List.not_mem_nil
  | cons first rest ih =>
    obtain ⟨hfirst, hrest⟩ := List.pairwise_cons.1 hapart
    rw [List.filter_cons]
    rcases List.mem_cons.1 hc with rfl | hc
    · have hothers : rest.filter (fun d => d.answers c.visibleTable c.name) = [] :=
        List.filter_eq_nil_iff.2 fun d hd => by simp [(hfirst d hd).1]
      rw [if_pos c.answers_inFull, hothers]
    · rw [(hfirst c hc).2]
      exact ih hrest hc

/-- Where names tell the columns of a clause apart, each is what its reference means. -/
theorem resolve_inFull {scope : Scope} (hapart : scope.columns.Pairwise SourceColumn.Apart)
    {c : SourceColumn} (hc : c ∈ scope.columns) : scope.resolve c.inFull = .ok c := by
  unfold Scope.resolve Scope.levels resolveIn
  rw [answers_of_apart hapart hc]
  rfl

/-! ## Projections -/

/-- An item, or a star as the columns that it stands for. -/
inductive Item.WrittenOut (visible : Level) : Item → List Item → Prop
  | kept (item : Item) : WrittenOut visible item [item]
  | star : WrittenOut visible .star (visible.map SourceColumn.asItem)
  | tableStar {table : String} (known : visible.ofTable table ≠ []) :
    WrittenOut visible (.tableStar table) ((visible.ofTable table).map SourceColumn.asItem)

/-- A projection in which stars are written out, be it one, some or all. -/
inductive ItemsWrittenOut (visible : Level) : List Item → List Item → Prop
  | nil : ItemsWrittenOut visible [] []
  | cons {item : Item} {written rest others : List Item} (first : item.WrittenOut visible written)
      (behind : ItemsWrittenOut visible rest others) :
    ItemsWrittenOut visible (item :: rest) (written ++ others)

section

variable {setting : Setting} {scope : Scope}

/-- A reference to a column is analysed as the column behind a star. -/
theorem outcome_asItem (hapart : scope.columns.Pairwise SourceColumn.Apart) {c : SourceColumn}
    (hc : c ∈ scope.columns) (r : Run) : (inferItem setting scope c.asItem).outcome r =
      ((inferStarColumn c).outcome r).bind fun output => .ok ([output.1], output.2) := by
  unfold SourceColumn.asItem inferItem inferExpr inferColumn inferStarColumn resolve
  rw [resolve_inFull hapart hc]
  simp only [Analyze.outcome_bind, bind_bind]
  rfl

/-- References to columns in a row are analysed as a star over them. -/
theorem outcome_asItems (hapart : scope.columns.Pairwise SourceColumn.Apart) {level : Level}
    (hlevel : level ⊆ scope.columns) (rest : List Item) (r : Run) :
    (inferItems setting scope (level.map SourceColumn.asItem ++ rest)).outcome r =
      ((inferStar level).outcome r).bind fun first =>
      ((inferItems setting scope rest).outcome first.2).bind fun others =>
        .ok (first.1 ++ others.1, others.2) := by
  induction level generalizing r with
  | nil =>
    have hnothing : (inferStar []).outcome r = .ok ([], r) := rfl
    rw [hnothing, ok_bind, List.map_nil, List.nil_append]
    cases (inferItems setting scope rest).outcome r <;> rfl
  | cons c level ih =>
    obtain ⟨hc, hlevel⟩ := List.cons_subset.1 hlevel
    unfold inferStar
    rw [List.map_cons, List.cons_append, outcome_inferItems_cons, outcome_asItem hapart hc]
    simp only [Analyze.outcome_bind, bind_bind, ih hlevel]
    rfl

/-- A projection is analysed as before when its stars are written out. -/
theorem outcome_itemsWrittenOut (hapart : scope.columns.Pairwise SourceColumn.Apart)
    {items written : List Item} (h : ItemsWrittenOut scope.columns items written) (r : Run) :
    (inferItems setting scope written).outcome r = (inferItems setting scope items).outcome r := by
  induction h generalizing r with
  | nil => rfl
  | cons first _ ih =>
    rw [outcome_inferItems_cons]
    cases first with
    | kept item =>
      rw [List.singleton_append, outcome_inferItems_cons]
      simp only [ih]
    | star =>
      rw [outcome_asItems hapart (List.Subset.refl _)]
      simp only [ih]
      rfl
    | @tableStar table known =>
      have hstar : inferItem setting scope (.tableStar table) =
          inferStar (scope.columns.ofTable table) := by
        unfold inferItem
        cases hcolumns : scope.columns.ofTable table with
        | nil => exact absurd hcolumns known
        | cons c rest => rfl
      have hshown : scope.columns.ofTable table ⊆ scope.columns := List.filter_subset_self _
      rw [hstar, outcome_asItems hapart hshown]
      simp only [ih]

end

/-! ## The condition on the sources -/

/-- The common tables that the branches of a query may read. -/
def commonTables (setting : Setting) (ctes : List Cte) : List (String × Level) :=
  match (inferCtes setting [] ctes).outcome .start with
  | .ok (_, known) => known.ctes
  | .error _ => []

/-- The columns that the FROM clause of a branch shows behind common tables, if it can be read. -/
def visibleColumns (setting : Setting) (ctes : List Cte) (b : Branch) : Level :=
  match ((inferCtes setting [] ctes).outcome .start).bind fun known =>
    (inferFrom setting [] b).outcome known.2 with
  | .ok (clause, _) => clause.columns
  | .error _ => []

/-- Sources in a row with different names, each with columns of different names. -/
structure DistinctNames (setting : Setting) (ctes : List (String × Level)) (steps : List Join) :
    Prop where
  sources : steps.Pairwise fun j k => sameName j.source.seenName k.source.seenName = false
  columns : ∀ j ∈ steps, ∀ level, Contributes setting ctes j.source level →
    level.Pairwise fun c d => sameName c.name d.name = false

/-- A source whose name is empty has no column of the name of a column of another source, those apart
that USING takes. -/
def NamedOrAlone (setting : Setting) (ctes : List (String × Level)) (steps : List Join) : Prop :=
  steps.Pairwise fun j k => j.source.seenName = "" ∨ k.source.seenName = "" →
    ∀ level level', Contributes setting ctes j.source level →
      Contributes setting ctes k.source level' →
      ∀ c ∈ j.condition.added level, ∀ d ∈ k.condition.added level', sameName c.name d.name = false

theorem JoinCondition.added_sublist (condition : JoinCondition) (level : Level) :
    (condition.added level).Sublist level := by
  cases condition with
  | shared names => exact List.filter_sublist
  | predicate e => exact List.Sublist.refl level
  | unconditional => exact List.Sublist.refl level

section

variable {setting : Setting} {ctes : List (String × Level)}

theorem ne_empty_of_sameName {a b : String} (h : sameName a b = true) (hb : b ≠ "") : a ≠ "" := by
  intro ha
  have hempty := isEmpty_of_sameName h
  rw [ha] at hempty
  exact hb (String.isEmpty_iff.1 hempty.symm)

/-- The columns that a clause shows of one source have different names if those that it brings do. -/
theorem pairwise_name_of_own {own : JoinKind} {later : List JoinKind} {brought shown : Level}
    (h : List.Forall₂ (ShownAs own later) brought shown)
    (hbrought : brought.Pairwise fun c d => sameName c.name d.name = false) :
    shown.Pairwise fun c d => sameName c.name d.name = false := by
  have hnames : shown.map (·.name) = brought.map (·.name) :=
    map_eq_of_rel h fun c d hshown => by rw [hshown.same]
  have hmapped : (brought.map (·.name)).Pairwise fun a b => sameName a b = false :=
    List.pairwise_map.2 hbrought
  rw [← hnames] at hmapped
  exact List.pairwise_map.1 hmapped

/-- Where sources have different names, and the columns of each, names tell the columns of a clause
apart. -/
theorem pairwise_apart_of_shows {steps : List Join} {columns : Level}
    (h : Shows setting ctes steps columns) (hnames : DistinctNames setting ctes steps)
    (halone : NamedOrAlone setting ctes steps) : columns.Pairwise SourceColumn.Apart := by
  induction h with
  | nil => exact .nil
  | @cons j rest level shown others contributes seen own behind ih =>
    obtain ⟨hsources, hrest⟩ := List.pairwise_cons.1 hnames.sources
    obtain ⟨hfirst, halone⟩ := List.pairwise_cons.1 halone
    refine List.pairwise_append.2 ⟨?_, ?_, ?_⟩
    · have hbrought := hnames.columns j List.mem_cons_self level contributes
      exact (pairwise_name_of_own own (hbrought.sublist (j.condition.added_sublist level))).imp
        SourceColumn.Apart.of_name
    · exact ih ⟨hrest, fun k hk => hnames.columns k (List.mem_cons_of_mem _ hk)⟩ halone
    · intro c hc d hd
      obtain ⟨brought, hbrought, hshown⟩ := exists_partner own hc
      have hctable : sameName c.visibleTable j.source.seenName = true := by
        rw [hshown.same]
        exact seen brought ((j.condition.added_sublist level).subset hbrought)
      have hcname : c.name = brought.name := by rw [hshown.same]
      obtain ⟨k, hmem, level', contributes', hdtable, brought', hbrought', hdname⟩ :=
        behind.exists_source hd
      by_cases hempty : j.source.seenName = "" ∨ k.source.seenName = ""
      · refine .of_name ?_
        rw [hcname, hdname]
        exact hfirst k hmem hempty level level' contributes contributes' brought hbrought brought'
          hbrought'
      · obtain ⟨hj, hk⟩ := not_or.1 hempty
        refine .of_table ?_ ?_ ?_
        · rw [sameName_congr hctable hdtable]
          exact hsources k hmem
        · exact ne_empty_of_sameName hctable hj
        · exact ne_empty_of_sameName hdtable hk

end

/-! ## Names read off the sources -/

/-- The names of the columns that a source contributes, read off its query, its common table or the
schema. -/
def Source.contributedNames (setting : Setting) (ctes : List (String × Level)) :
    Source → List String
  | .derived q _ => projectedNames q
  | .table name _ =>
    match ctes.find? fun entry => sameName entry.1 (lastSegment name) with
    | some entry => entry.2.map (·.name)
    | none => ((setting.schema.columnsOf? (lastSegment name)).getD []).map (·.column)

section

variable {setting : Setting} {ctes : List (String × Level)} {steps : List Join}

/-- All names are read off where no query behind the source has a star. -/
theorem Contributes.names {source : Source} {level : Level}
    (h : Contributes setting ctes source level) (hnamed : source.namesColumns [] = true) :
    level.map (·.name) = source.contributedNames setting ctes := by
  cases h with
  | @commonTable name _ entry found =>
    unfold Source.contributedNames
    dsimp only
    rw [found, List.map_map]
    rfl
  | @table name _ records _ hidden known declared =>
    unfold Source.contributedNames
    dsimp only
    rw [hidden, known]
    exact map_eq_of_rel declared fun record c hdeclares => hdeclares.name
  | @derived q aliasName _ _ _ _ read =>
    rw [names_levelOf]
    exact ((names_of_query read).eq hnamed).symm

/-- So the condition on the sources can be read off, too. -/
theorem DistinctNames.of_contributedNames
    (hsources : steps.Pairwise fun j k => sameName j.source.seenName k.source.seenName = false)
    (hnamed : ∀ j ∈ steps, j.source.namesColumns [] = true)
    (hnames : ∀ j ∈ steps, (j.source.contributedNames setting ctes).Pairwise fun a b =>
      sameName a b = false) : DistinctNames setting ctes steps where
  sources := hsources
  columns := by
    intro j hj level hlevel
    have hdistinct := hnames j hj
    rw [← hlevel.names (hnamed j hj)] at hdistinct
    exact List.pairwise_map.1 hdistinct

/-- Sources that all have names need not stand alone. -/
theorem NamedOrAlone.of_named (h : ∀ j ∈ steps, j.source.seenName ≠ "") :
    NamedOrAlone setting ctes steps := by
  refine List.Pairwise.imp_of_mem (R := fun _ _ => True) (fun hj hk _ hempty => ?_)
    (List.pairwise_of_forall fun _ _ => trivial)
  rcases hempty with hempty | hempty
  · exact absurd hempty (h _ hj)
  · exact absurd hempty (h _ hk)

end

/-! ## The description -/

section

variable {setting : Setting} {ctes : List Cte} {b : Branch} {written : List Item}
  {order : List OrderTerm} {limit : Option Limit}

/-- A query of one branch is analysed as before when stars of it are written out. -/
theorem walk_writtenOut (hapart : (visibleColumns setting ctes b).Pairwise SourceColumn.Apart)
    (hwritten : ItemsWrittenOut (visibleColumns setting ctes b) b.items written) :
    (inferQuery setting [] ⟨ctes, [{ b with items := written }], order, limit⟩).outcome .start =
      (inferQuery setting [] ⟨ctes, [b], order, limit⟩).outcome .start := by
  rw [outcome_oneBranch, outcome_oneBranch]
  cases hctes : (inferCtes setting [] ctes).outcome .start with
  | error e => rfl
  | ok known =>
    have hsame : (inferFrom setting [] { b with items := written }).outcome known.2 =
        (inferFrom setting [] b).outcome known.2 := rfl
    rw [ok_bind, ok_bind, hsame]
    cases hfrom : (inferFrom setting [] b).outcome known.2 with
    | error e => rfl
    | ok clause =>
      have hvisible : visibleColumns setting ctes b = clause.1.columns := by
        unfold visibleColumns
        rw [hctes, ok_bind, hfrom]
      rw [hvisible] at hapart hwritten
      have hitems : ∀ r, (inferItems setting ⟨clause.1.columns, []⟩ written).outcome r =
          (inferItems setting ⟨clause.1.columns, []⟩ b.items).outcome r := fun r =>
        outcome_itemsWrittenOut hapart hwritten r
      rw [ok_bind, ok_bind]
      unfold inferAfterFrom
      simp only [Analyze.outcome_bind, hitems]
      rfl

/-- Only the text of a description tells that stars are written out. -/
theorem describe_of_apart (hapart : (visibleColumns setting ctes b).Pairwise SourceColumn.Apart)
    (hwritten : ItemsWrittenOut (visibleColumns setting ctes b) b.items written) :
    describe setting (.select ⟨ctes, [{ b with items := written }], order, limit⟩) =
      (describe setting (.select ⟨ctes, [b], order, limit⟩)).map fun d =>
        { d with sql := (Select.mk ctes [{ b with items := written }] order limit).text } := by
  rw [describe_select, describe_select, walk_writtenOut hapart hwritten]
  cases (inferQuery setting [] ⟨ctes, [b], order, limit⟩).outcome .start with
  | error e => rfl
  | ok p =>
    rw [ok_bind, ok_bind]
    cases solve setting.profile p.2.constraints <;> rfl

end

/-- In a query of one branch whose sources have different names, and each of them columns of different
names, any star of the projection may be written out as the columns that it stands for, qualified by the
names that their tables are seen under, provided that a source without a name shares no column name with
another. The query is described or refused as before, with the same columns, parameters, relations and
number of rows; only the text is another. -/
theorem describe_writtenOut {records : List ColumnRecord} {profile : Profile} {ctes : List Cte}
    {b : Branch} {written : List Item} {order : List OrderTerm} {limit : Option Limit}
    (hnames : DistinctNames ⟨.ofRecords records, profile⟩
      (commonTables ⟨.ofRecords records, profile⟩ ctes) b.steps)
    (halone : NamedOrAlone ⟨.ofRecords records, profile⟩
      (commonTables ⟨.ofRecords records, profile⟩ ctes) b.steps)
    (hwritten : ItemsWrittenOut (visibleColumns ⟨.ofRecords records, profile⟩ ctes b) b.items
      written) :
    describe ⟨.ofRecords records, profile⟩
        (.select ⟨ctes, [{ b with items := written }], order, limit⟩) =
      (describe ⟨.ofRecords records, profile⟩ (.select ⟨ctes, [b], order, limit⟩)).map fun d =>
        { d with sql := (Select.mk ctes [{ b with items := written }] order limit).text } := by
  refine describe_of_apart ?_ hwritten
  unfold commonTables at hnames halone
  unfold visibleColumns
  cases hctes : (inferCtes ⟨.ofRecords records, profile⟩ [] ctes).outcome .start with
  | error e => exact .nil
  | ok known =>
    rw [ok_bind]
    cases hfrom : (inferFrom ⟨.ofRecords records, profile⟩ [] b).outcome known.2 with
    | error e => exact .nil
    | ok clause =>
      have hstart : Run.start.CtesCarryNames := fun _ hentry => absurd hentry List.not_mem_nil
      rw [hctes] at hnames halone
      exact pairwise_apart_of_shows (shows_of_from (carryNames_of_commonTables hstart hctes) hfrom)
        hnames halone

/-- `WITH c AS (SELECT id AS n FROM mytable2)`. -/
def idsAsN : Cte :=
  ⟨"c", ⟨[], [⟨false, [.expr (.column ⟨none, "id"⟩) (some "n")], [.table "mytable2" none], [], none,
    [], none⟩], [], none⟩⟩

/-- `SELECT *, ?, D.* FROM mytable1 a, c RIGHT JOIN (SELECT id, ? AS v FROM mytable1) d ON d.id = a.id
LEFT JOIN mytable3 USING (ID) WHERE d.id = ?`. -/
def Branch.starred : Branch :=
  ⟨false, [.star, .expr (.parameter none) none, .tableStar "D"],
    [.table "mytable1" (some "a"), .table "c" none],
    [⟨.right, .derived ⟨[], [⟨false, [.expr (.column ⟨none, "id"⟩) none, .expr (.parameter none)
          (some "v")], [.table "mytable1" none], [], none, [], none⟩], [], none⟩ "d",
        .predicate (.compare .eq (columnOf "d" "id") (columnOf "a" "id"))⟩,
      ⟨.left, .table "mytable3" none, .shared ["ID"]⟩],
    some (.compare .eq (columnOf "d" "id") (.parameter none)), [], none⟩

/-- The items of `Branch.starred` with both stars written out. -/
def starredInFull : List Item :=
  [.expr (columnOf "a" "id") none, .expr (columnOf "c" "n") none, .expr (columnOf "d" "id") none,
    .expr (columnOf "d" "v") none, .expr (columnOf "mytable3" "double_value") none,
    .expr (.parameter none) none, .expr (columnOf "d" "id") none, .expr (columnOf "d" "v") none]

/-- The items that stand for columns are known by the names of these. -/
theorem asItems_eq {level : Level} {names : List (String × String)}
    (h : level.map (fun c => (c.visibleTable, c.name)) = names) :
    level.map SourceColumn.asItem = names.map fun name => .expr (columnOf name.1 name.2) none := by
  rw [← h, List.map_map]
  rfl

theorem describe_writtenOut_starred :
    DistinctNames ⟨.ofRecords threeTables, .mysql⟩
        (commonTables ⟨.ofRecords threeTables, .mysql⟩ [idsAsN]) Branch.starred.steps ∧
      NamedOrAlone ⟨.ofRecords threeTables, .mysql⟩
        (commonTables ⟨.ofRecords threeTables, .mysql⟩ [idsAsN]) Branch.starred.steps ∧
      ItemsWrittenOut (visibleColumns ⟨.ofRecords threeTables, .mysql⟩ [idsAsN] .starred)
        Branch.starred.items starredInFull ∧
      (describe ⟨.ofRecords threeTables, .mysql⟩
        (.select ⟨[idsAsN], [.starred], [], none⟩)).isOk = true ∧
      describe ⟨.ofRecords threeTables, .mysql⟩
          (.select ⟨[idsAsN], [{ Branch.starred with items := starredInFull }], [], none⟩) =
        (describe ⟨.ofRecords threeTables, .mysql⟩
          (.select ⟨[idsAsN], [.starred], [], none⟩)).map fun d =>
            { d with sql := (Select.mk [idsAsN]
              [{ Branch.starred with items := starredInFull }] [] none).text } := by
  have hnames : DistinctNames ⟨.ofRecords threeTables, .mysql⟩
      (commonTables ⟨.ofRecords threeTables, .mysql⟩ [idsAsN]) Branch.starred.steps :=
    .of_contributedNames (by decide +kernel) (by decide +kernel) (by decide +kernel)
  have halone : NamedOrAlone ⟨.ofRecords threeTables, .mysql⟩
      (commonTables ⟨.ofRecords threeTables, .mysql⟩ [idsAsN]) Branch.starred.steps :=
    .of_named (by decide +kernel)
  have hall : (visibleColumns ⟨.ofRecords threeTables, .mysql⟩ [idsAsN] .starred).map
      (fun c => (c.visibleTable, c.name)) =
      [("a", "id"), ("c", "n"), ("d", "id"), ("d", "v"), ("mytable3", "double_value")] := by
    decide +kernel
  have hpart : ((visibleColumns ⟨.ofRecords threeTables, .mysql⟩ [idsAsN] .starred).ofTable
      "D").map (fun c => (c.visibleTable, c.name)) = [("d", "id"), ("d", "v")] := by
    decide +kernel
  have hknown : (visibleColumns ⟨.ofRecords threeTables, .mysql⟩ [idsAsN] .starred).ofTable
      "D" ≠ [] := by
    intro hnone
    rw [hnone] at hpart
    cases hpart
  have hstar : Item.WrittenOut
      (visibleColumns ⟨.ofRecords threeTables, .mysql⟩ [idsAsN] .starred) .star _ := .star
  have htable := Item.WrittenOut.tableStar hknown
  rw [asItems_eq hall] at hstar
  rw [asItems_eq hpart] at htable
  have hwritten : ItemsWrittenOut
      (visibleColumns ⟨.ofRecords threeTables, .mysql⟩ [idsAsN] .starred) Branch.starred.items
      starredInFull := .cons hstar (.cons (.kept _) (.cons htable .nil))
  exact ⟨hnames, halone, hwritten, by decide +kernel, describe_writtenOut hnames halone hwritten⟩

/-- `SELECT * FROM (SELECT id FROM mytable1) AS "", mytable2`. -/
def Branch.besideUnnamed : Branch :=
  ⟨false, [.star], [.derived ⟨[], [⟨false, [.expr (.column ⟨none, "id"⟩) none],
    [.table "mytable1" none], [], none, [], none⟩], [], none⟩ "", .table "mytable2" none], [], none,
    [], none⟩

/-- A name that is empty tells nothing apart: written in full, a column of a source without a name is
ambiguous if another source has a column of its name. -/
theorem ambiguous_besideUnnamed :
    DistinctNames ⟨.ofRecords threeTables, .mysql⟩
        (commonTables ⟨.ofRecords threeTables, .mysql⟩ []) Branch.besideUnnamed.steps ∧
      ItemsWrittenOut (visibleColumns ⟨.ofRecords threeTables, .mysql⟩ [] .besideUnnamed)
        Branch.besideUnnamed.items
        [.expr (columnOf "" "id") none, .expr (columnOf "mytable2" "id") none] ∧
      (describe ⟨.ofRecords threeTables, .mysql⟩
        (.select ⟨[], [.besideUnnamed], [], none⟩)).isOk = true ∧
      (describe ⟨.ofRecords threeTables, .mysql⟩ (.select ⟨[], [{ Branch.besideUnnamed with
        items := [.expr (columnOf "" "id") none, .expr (columnOf "mytable2" "id") none] }], [],
        none⟩)).isOk = false := by
  have hnames : DistinctNames ⟨.ofRecords threeTables, .mysql⟩
      (commonTables ⟨.ofRecords threeTables, .mysql⟩ []) Branch.besideUnnamed.steps :=
    .of_contributedNames (by decide +kernel) (by decide +kernel) (by decide +kernel)
  have hall : (visibleColumns ⟨.ofRecords threeTables, .mysql⟩ [] .besideUnnamed).map
      (fun c => (c.visibleTable, c.name)) = [("", "id"), ("mytable2", "id")] := by
    decide +kernel
  have hstar : Item.WrittenOut
      (visibleColumns ⟨.ofRecords threeTables, .mysql⟩ [] .besideUnnamed) .star _ := .star
  rw [asItems_eq hall] at hstar
  exact ⟨hnames, .cons hstar .nil, by decide +kernel, by decide +kernel⟩

end QuerySignature
