import QuerySignature.Proofs.Described
import QuerySignature.Proofs.Fragments.Graph
import QuerySignature.Proofs.Sources.Parts

namespace QuerySignature

/-! # Fragments and relations

A described query has a relation for each source of its first FROM clause, and is cut into a fragment
for each. The walk and the cutting go through the clause side by side.

- `Run.Sound.listedGraph`, `Run.Sound.joinedGraph`: what they gather stays alike;
- `Fragments.sources_as_relations`: the sources have the same names, and the conditions of the joins
  tell exactly where they have the same parents;
- `equated_table_is_not_mentioned_first`: a join that has two parents.
-/

/-! ## The walk beside the cutting -/

/-- Every column that a USING list shares is one that an earlier fragment brings. -/
def SharesKnown (steps : List (Source × JoinCondition)) (sources : List Fragment) : Prop :=
  ∀ (place : Nat) (step : Source × JoinCondition) (names : List String), steps[place]? = some step →
    step.2 = .shared names → ∀ name ∈ names,
      ∃ field ∈ knownFields (sources.take place), sameName name field.field = true

/-- The last of labelled sources is what the next join is behind. -/
theorem previousAs_lastName {schema : Schema} {ctes : List Cte} {xs : List Source}
    {fragments : List Fragment} (h : List.Forall₂ (BringsSource schema ctes) xs fragments)
    (hlabelled : ∀ x ∈ xs, x.isLabelled = true) :
    PreviousAs (fragments.getLast?.bind (·.relation)) (Sources.lastName xs) := by
  unfold Sources.lastName
  cases hlast : xs.getLast? with
  | none =>
    obtain rfl := List.getLast?_eq_none_iff.1 hlast
    cases h
    exact ⟨rfl, nofun⟩
  | some x =>
    have hx := hlabelled x (List.mem_of_getLast? hlast)
    rw [List.getLast?_eq_getElem?] at hlast
    obtain ⟨fragment, hfragment, hbrings⟩ := exists_partner_at h.flip hlast
    rw [List.getLast?_eq_getElem?, ← h.length_eq, hfragment]
    refine ⟨?_, ?_⟩
    · simp [hbrings.relation, Source.visibleName_eq_label hx]
    · simpa [hbrings.relation] using Source.label_ne_empty hx

section

variable {records : List ColumnRecord} {profile : Profile} {ctes : List Cte} {behind r : Run}
  {made : List TypeInfo} {steps : List (Source × JoinCondition)} {done : Sources}
  {fragments : List Fragment}

/-- Listed sources make the same graph for the walk and for the cutting. -/
theorem Run.Sound.listedGraph (h : r.Sound made) (hnamed : CtesNamed ctes)
    (hctes : (inferCtes ⟨.ofRecords records, profile⟩ [] ctes).outcome .start = .ok ((), behind))
    (hsame : r.ctes = behind.ctes) (hdone : done.Matches .none made done)
    (hgraph : SameGraph steps done fragments) (names : List String) {xs : List Source}
    (hxs : ∀ x ∈ xs, x.isLabelled = true ∧ x.namesColumns ctes = true) {listed : Sources} {s : Run}
    (hs : (inferSources ⟨.ofRecords records, profile⟩ done xs).outcome r = .ok (listed, s)) :
    ∃ made' cut, s.Sound made' ∧ s.ctes = behind.ctes ∧ listed.Matches .none made' listed ∧
      sourceFragments (.ofRecords records) names ctes fragments xs = .ok cut ∧
      SameGraph (steps ++ xs.map fun source => (source, .unconditional)) listed cut := by
  induction xs generalizing made r done steps fragments with
  | nil =>
    cases hs
    exact ⟨made, fragments, h, hsame, hdone, rfl, by simpa using hgraph⟩
  | cons x rest ih =>
    obtain ⟨level, t, made₁, hsource, hs, -, hsound₁, hctes₁, hadded⟩ := h.listStep hdone hs
    obtain ⟨hlabelled, heverything⟩ := hxs x List.mem_cons_self
    obtain ⟨fields, hfields⟩ := exists_sourceFields hctes hsame hsource
    have hbrought :=
      broughtAlike_of_source hnamed hctes hsame hlabelled heverything hsource hfields
    -- what the cutting makes of the source
    let fragment : Fragment := {
      text := (if fragments.isEmpty then "FROM " else ", ") ++ x.text
      relation := some x.label
      parent := fragments.head?.bind (·.relation)
      fields
      parameters := parameterIndexes ((if fragments.isEmpty then "FROM " else ", ") ++ x.text)
        names }
    have hnext : SameGraph (steps ++ [(x, .unconditional)]) (done.add x level)
        (fragments ++ [fragment]) := hgraph.add hlabelled hbrought rfl rfl
    obtain ⟨made₂, cut, hsound₂, hctes₂, hlisted, hcut, hall⟩ := ih hsound₁ (hctes₁.trans hsame)
      hadded hnext (fun y hy => hxs y (List.mem_cons_of_mem _ hy)) hs
    refine ⟨made₂, cut, hsound₂, hctes₂, hlisted, ?_, by simpa using hall⟩
    unfold sourceFragments
    rw [hfields]
    exact hcut

variable (steps) in
/-- Joined sources make the same graph, up to the links that go to what stands first. -/
theorem Run.Sound.joinedGraph (h : r.Sound made) (hnamed : CtesNamed ctes)
    (hctes : (inferCtes ⟨.ofRecords records, profile⟩ [] ctes).outcome .start = .ok ((), behind))
    (hsame : r.ctes = behind.ctes) (hdone : done.Matches .none made done) {previous : String}
    (hprevious : PreviousAs (fragments.getLast?.bind (·.relation)) previous) (names : List String)
    {js : List Join}
    (hjs : ∀ j ∈ js, j.source.isLabelled = true ∧ j.source.namesColumns ctes = true)
    {joined : Sources} {s : Run}
    (hs : (inferJoins ⟨.ofRecords records, profile⟩ [] done previous js).outcome r =
      .ok (joined, s)) :
    ∃ cut, joinFragments (.ofRecords records) names ctes fragments js = .ok cut ∧
      fragments <+: cut ∧
      (SharesKnown (steps ++ js.map fun join => (join.source, join.condition)) cut →
        SameGraph steps done fragments →
        SameGraph (steps ++ js.map fun join => (join.source, join.condition)) joined cut) := by
  induction js generalizing made r done steps fragments previous with
  | nil =>
    cases hs
    exact ⟨fragments, rfl, List.prefix_rfl, fun _ hgraph => by simpa using hgraph⟩
  | cons j rest ih =>
    obtain ⟨level, t, u, made₁, hsource, hcondition, hs, -, hsound₁, hctes₁, hjoined⟩ :=
      h.joinStep nothing_outer hdone hs
    obtain ⟨hlabelled, heverything⟩ := hjs j List.mem_cons_self
    obtain ⟨fields, hfields⟩ := exists_sourceFields hctes hsame hsource
    have hbrought :=
      broughtAlike_of_source hnamed hctes hsame hlabelled heverything hsource hfields
    let fragment : Fragment := {
      text := j.text
      relation := some j.source.label
      parent := (joinParent? j.condition j.source.label (knownFields fragments)).or
        (fragments.getLast?.bind (·.relation))
      fields
      parameters := parameterIndexes j.text names }
    have hlast : PreviousAs ((fragments ++ [fragment]).getLast?.bind (·.relation))
        j.source.visibleName := by
      rw [List.getLast?_concat, Source.visibleName_eq_label hlabelled]
      exact ⟨rfl, fun hempty => Source.label_ne_empty hlabelled (Option.some.inj hempty)⟩
    obtain ⟨cut, hcut, hprefix, hall⟩ := ih (steps ++ [(j.source, j.condition)]) hsound₁
      (hctes₁.trans hsame) hjoined hlast (fun k hk => hjs k (List.mem_cons_of_mem _ hk)) hs
    refine ⟨cut, ?_, (List.prefix_append _ _).trans hprefix, ?_⟩
    · unfold joinFragments
      rw [hfields]
      exact hcut
    · intro hshares hgraph
      have hrest : steps ++ (j :: rest).map (fun join => (join.source, join.condition)) =
          steps ++ [(j.source, j.condition)] ++
            rest.map fun join => (join.source, join.condition) := by simp
      rw [hrest] at hshares ⊢
      -- what the fragments before this one bring is what they bring in the end
      have hbefore : cut.take steps.length = fragments := by
        obtain ⟨later, rfl⟩ := hprefix
        rw [hgraph.linked.lengths.1, List.append_assoc, List.take_left]
      refine hall hshares (hgraph.join hlabelled hbrought rfl j.kind ?_ ?_ hprevious rfl)
      · intro shared hshared name hname
        have hknown := hshares steps.length (j.source, j.condition) shared (by simp) hshared name
          hname
        rwa [hbefore] at hknown
      · intro e he c hc
        rw [he] at hcondition
        unfold inferCondition at hcondition
        rw [Analyze.outcome_bind] at hcondition
        rcases bind_eq_ok.1 hcondition with ⟨⟨inferred, v⟩, hexpr, -⟩
        exact resolved_of_inferExpr hexpr hc

end

/-! ## Queries -/

/-- The relations of a query are those of its first FROM clause, with their join columns under the
names that they are projected with. -/
theorem relations_of_query {setting : Setting} {q : Select} {branch : Branch} {rest : List Branch}
    {result : QueryResult} {run : Run} (hbranch : q.branches = branch :: rest)
    (h : (inferQuery setting [] q).outcome .start = .ok (result, run)) :
    ∃ behind listed rs joined rj columns,
      (inferCtes setting [] q.ctes).outcome .start = .ok ((), behind) ∧
      (inferSources setting .empty branch.sources).outcome behind = .ok (listed, rs) ∧
      (inferJoins setting [] listed (Sources.lastName branch.sources) branch.joins).outcome rs =
        .ok (joined, rj) ∧
      result.relations = renameJoinColumns columns joined.relations := by
  obtain ⟨branch', rest', behind, front, after, others, hbranch', hctes, hfront, -, hrelations, -⟩ :=
    exists_front h
  obtain ⟨rfl, -⟩ := List.cons.inj (hbranch.symm.trans hbranch')
  obtain ⟨listed, rs, rj, ri, found, hsources, hjoins, -⟩ := clauses_of_front hfront
  exact ⟨behind, listed, rs, front.1, rj, _, hctes, hsources, hjoins, hrelations⟩

/-- The key of a relation and that of its parent. -/
def Relation.link (r : Relation) : String × String := (r.key, r.parent)

theorem exists_link_at {xs ys : List Relation} (h : xs.map Relation.link = ys.map Relation.link)
    {place : Nat} {r : Relation} (hr : xs[place]? = some r) :
    ∃ s, ys[place]? = some s ∧ s.key = r.key ∧ s.parent = r.parent := by
  have hplace := congrArg (·[place]?) h
  simp only [List.getElem?_map, hr, Option.map_some] at hplace
  obtain ⟨s, hs, hlink⟩ := Option.map_eq_some_iff.1 hplace.symm
  exact ⟨s, hs, congrArg Prod.fst hlink, congrArg Prod.snd hlink⟩

/-- A relation keeps its place in the graph when its join column is renamed. -/
theorem link_renameJoinColumns (columns : List OutputColumn) (relations : List Relation) :
    (renameJoinColumns columns relations).map Relation.link = relations.map Relation.link := by
  unfold renameJoinColumns
  rw [List.map_map]
  refine List.map_congr_left fun relation _ => ?_
  dsimp only [Function.comp]
  cases columns.findSome? relation.renamed? <;> rfl

/-- The first branch of a described query is cut into a source for each of its relations, under the
same name. A source hangs off the table that its relation hangs off, exactly if the condition of its
join links it to what stands first. This is so for labelled tables whose columns are named, if no
two common tables share a name and every USING column is one of an earlier source. -/
theorem Fragments.sources_as_relations {records : List ColumnRecord} {profile : Profile}
    {q : Select} {branch : Branch} {rest : List Branch} {d : Description}
    (hd : describe ⟨.ofRecords records, profile⟩ (.select q) = .ok d)
    (hbranch : q.branches = branch :: rest) (hnamed : CtesNamed q.ctes)
    (hsources : ∀ source ∈ branch.allSources,
      source.isLabelled = true ∧ source.namesColumns q.ctes = true) (names : List String) :
    ∃ fragments, Fragments.ofQuery (.ofRecords records) names q = .ok fragments ∧
      (SharesKnown branch.clause fragments.sources →
        fragments.sources.length = branch.clause.length ∧
        d.relations.length = branch.clause.length ∧
        ∀ (place : Nat) (step : Source × JoinCondition) (fragment : Fragment) (relation : Relation),
          branch.clause[place]? = some step → fragments.sources[place]? = some fragment →
          d.relations[place]? = some relation →
          fragment.relation = some relation.key ∧
            fragment.hangsAs relation = step.2.linksFirst step.1.label
              (knownFields (fragments.sources.take place)) fragment.fields
              ((fragments.sources.take place).getLast?.bind (·.relation))) := by
  obtain ⟨result, run, solution, hwalk, -, rfl⟩ := describe_select_iff.1 hd
  obtain ⟨behind, listed, rs, joined, rj, columns, hctes, hlisted, hjoined, hrelations⟩ :=
    relations_of_query hbranch hwalk
  have hlistedSources : ∀ x ∈ branch.sources, x.isLabelled = true ∧ x.namesColumns q.ctes = true :=
    fun x hx => hsources x (List.mem_append_left _ hx)
  have hjoinedSources : ∀ j ∈ branch.joins,
      j.source.isLabelled = true ∧ j.source.namesColumns q.ctes = true :=
    fun j hj => hsources j.source (List.mem_append_right _ (List.mem_map_of_mem hj))
  -- the walk and the cutting side by side: the listed sources, then the joins
  obtain ⟨made, -, hsound, -⟩ := Run.Sound.start.commonTables nothing_outer hctes
  obtain ⟨made₁, cutListed, hsound₁, hsame₁, hmatches, hcutListed, hlistedGraph⟩ :=
    hsound.listedGraph hnamed hctes rfl (.empty made) .nil names hlistedSources hlisted
  have hprevious := previousAs_lastName (bringsSource_of_sources .nil hcutListed)
    fun x hx => (hlistedSources x hx).1
  obtain ⟨cut, hcut, -, hgraph⟩ := hsound₁.joinedGraph
    (branch.sources.map fun source => (source, .unconditional)) hnamed hctes hsame₁ hmatches
    hprevious names hjoinedSources hjoined
  have hfragments : ∃ fragments, Fragments.ofQuery (.ofRecords records) names q = .ok fragments ∧
      fragments.sources = cut := by
    unfold Fragments.ofQuery
    simp only [hbranch]
    rw [hcutListed]
    show ∃ fragments, ((joinFragments _ _ _ cutListed branch.joins).bind _) = .ok fragments ∧ _
    rw [hcut]
    exact ⟨_, rfl, rfl⟩
  obtain ⟨fragments, hof, rfl⟩ := hfragments
  refine ⟨fragments, hof, fun hshares => ?_⟩
  have hlinked := (hgraph hshares hlistedGraph).linked
  have hlength : result.relations.length = joined.relations.length := by
    rw [hrelations]
    exact List.length_map _
  obtain ⟨hsteps, hjoinedLength⟩ := hlinked.lengths
  refine ⟨hsteps.symm, hlength.trans (hjoinedLength.trans hsteps.symm), ?_⟩
  intro place step fragment relation hstep hfragment hrelation
  -- renaming the join columns changes no link
  obtain ⟨own, hown, hkey, hparent⟩ := exists_link_at (hrelations ▸ link_renameJoinColumns _ _)
    hrelation
  have hlink := hlinked.link hstep hown hfragment
  have hhangs : fragment.hangsAs relation = fragment.hangsAs own := by
    unfold Fragment.hangsAs Relation.isRoot
    rw [hparent]
  exact ⟨hkey ▸ hlink.key, hhangs.trans hlink.parent⟩

/-! ## Three tables -/

/-- The columns of three tables. -/
def threeTables : List ColumnRecord :=
  [⟨"mytable1", "id", .int, .primary, true⟩, ⟨"mytable2", "id", .int, .primary, true⟩,
    ⟨"mytable3", "id", .int, .primary, true⟩, ⟨"mytable3", "double_value", .double, .plain, false⟩]

/-- The column of a table. -/
def columnOf (table name : String) : Expr := .column ⟨some table, name⟩

/-- `SELECT a.id FROM mytable1 a INNER JOIN mytable2 b ON b.id = a.id INNER JOIN mytable3 c` with a
condition. -/
def joinedTwice (condition : JoinCondition) : Select :=
  ⟨[], [⟨false, [.expr (columnOf "a" "id") none], [.table "mytable1" (some "a")],
    [⟨.inner, .table "mytable2" (some "b"),
      .predicate (.compare .eq (columnOf "b" "id") (columnOf "a" "id"))⟩,
      ⟨.inner, .table "mytable3" (some "c"), condition⟩], none, [], none⟩], [], none⟩

/-- `ON c.id = a.id`. -/
def onFirst : JoinCondition := .predicate (.compare .eq (columnOf "c" "id") (columnOf "a" "id"))

/-- `ON c.double_value > b.id AND c.id = a.id`. -/
def onFirstBehindSecond : JoinCondition :=
  .predicate (.and (.compare .gt (columnOf "c" "double_value") (columnOf "b" "id"))
    (.compare .eq (columnOf "c" "id") (columnOf "a" "id")))

/-- A table that is joined to the first one hangs off it in both graphs. -/
theorem sources_as_relations_onFirst : ∃ d fragments,
    describe ⟨.ofRecords threeTables, .mysql⟩ (.select (joinedTwice onFirst)) = .ok d ∧
    Fragments.ofQuery (.ofRecords threeTables) [] (joinedTwice onFirst) = .ok fragments ∧
    d.relations.map (fun relation => (relation.key, relation.parent)) =
      [("a", ""), ("b", "a"), ("c", "a")] ∧
    ∀ fragment relation, fragments.sources[2]? = some fragment → d.relations[2]? = some relation →
      fragment.relation = some relation.key ∧ fragment.hangsAs relation = true := by
  obtain ⟨d, hd⟩ := exists_of_isOk (x := describe ⟨.ofRecords threeTables, .mysql⟩
    (.select (joinedTwice onFirst))) (by decide +kernel)
  obtain ⟨fragments, hcut, hgraph⟩ := Fragments.sources_as_relations hd rfl (by decide)
    (by decide) []
  have hrelations : (describe ⟨.ofRecords threeTables, .mysql⟩
      (.select (joinedTwice onFirst))).toOption.map (fun d => d.relations.map fun relation =>
        (relation.key, relation.parent)) = some [("a", ""), ("b", "a"), ("c", "a")] := by
    decide +kernel
  rw [hd] at hrelations
  have hlinks : ((Fragments.ofQuery (.ofRecords threeTables) []
      (joinedTwice onFirst)).toOption.any fun fragments => fragments.sources[2]?.any fun fragment =>
        onFirst.linksFirst "c" (knownFields (fragments.sources.take 2)) fragment.fields
          ((fragments.sources.take 2).getLast?.bind (·.relation))) = true := by decide +kernel
  rw [hcut] at hlinks
  refine ⟨d, fragments, hd, hcut, Option.some.inj hrelations, ?_⟩
  intro fragment relation hfragment hrelation
  -- no join shares columns by USING
  obtain ⟨-, -, hall⟩ := hgraph (by
    intro place step names hstep hshared
    match place with
    | 0 | 1 | 2 =>
      cases hstep
      cases hshared)
  obtain ⟨hkey, hhangs⟩ := hall 2 _ fragment relation rfl hfragment hrelation
  refine ⟨hkey, hhangs.trans ?_⟩
  simpa [hfragment, Except.toOption, Source.label] using hlinks

/-- `ON c.double_value > b.id AND c.id = a.id` equates the joined table with the first one, but
mentions the second one first: as a relation it hangs off `a`, as a fragment off `b`. -/
theorem equated_table_is_not_mentioned_first : ∃ d fragments fragment relation,
    describe ⟨.ofRecords threeTables, .mysql⟩ (.select (joinedTwice onFirstBehindSecond)) = .ok d ∧
    Fragments.ofQuery (.ofRecords threeTables) [] (joinedTwice onFirstBehindSecond) =
      .ok fragments ∧
    fragments.sources[2]? = some fragment ∧ d.relations[2]? = some relation ∧
    fragment.relation = some "c" ∧ relation.key = "c" ∧
    fragment.parent = some "b" ∧ relation.parent = "a" := by
  obtain ⟨d, hd⟩ := exists_of_isOk (x := describe ⟨.ofRecords threeTables, .mysql⟩
    (.select (joinedTwice onFirstBehindSecond))) (by decide +kernel)
  obtain ⟨fragments, hcut⟩ := exists_of_isOk (x := Fragments.ofQuery (.ofRecords threeTables) []
    (joinedTwice onFirstBehindSecond)) (by decide +kernel)
  have hrelation : (describe ⟨.ofRecords threeTables, .mysql⟩
      (.select (joinedTwice onFirstBehindSecond))).toOption.bind (·.relations[2]?) =
        some ⟨"mytable3", "c", "a", .one, "id"⟩ := by decide +kernel
  have hfragment : ((Fragments.ofQuery (.ofRecords threeTables) []
      (joinedTwice onFirstBehindSecond)).toOption.bind (·.sources[2]?)).map
        (fun fragment => (fragment.relation, fragment.parent)) = some (some "c", some "b") := by
    decide +kernel
  rw [hd] at hrelation
  rw [hcut] at hfragment
  obtain ⟨fragment, hat, hnames⟩ := Option.map_eq_some_iff.1 hfragment
  simp only [Prod.mk.injEq] at hnames
  exact ⟨d, fragments, fragment, _, hd, hcut, hat, hrelation, hnames.1, rfl, hnames.2, rfl⟩

end QuerySignature
