import QuerySignature.Analysis.Write
import QuerySignature.Proofs.Walk.Simulation

namespace QuerySignature

/-! # Queries in parts

A branch is analysed up to its WHERE, then its GROUP BY, then its HAVING; a query has its common
tables, its branches, its ORDER BY and its LIMIT. The parts before a clause do not depend on it.

- `outcome_inferFront`: a front is its FROM clause, its projection and its WHERE.
- `outcome_inferBranch`: a branch is its front, then GROUP BY and HAVING.
- `outcome_inferQuery`: a query is its common tables and branches, then ORDER BY and LIMIT.
- `clauses_of_front`, `clauses_of_branch`, `clauses_of_query`: if the walk succeeds, so does each part.
- `exists_front`: the front of the first branch, of which the result of a query is made.
- `forall_of_items`: what holds of columns and of values holds of a projection of them.
- `targets_of_insert`, `clauses_of_update`, `clauses_of_delete`: statements that write.
-/

/-- Parentheses are passed through. -/
theorem inferExpr_bare (setting : Setting) (scope : Scope) : ∀ e : Expr,
    inferExpr setting scope e.bare = inferExpr setting scope e
  | .paren inner => by
    rw [Expr.bare, inferExpr_bare setting scope inner]
    conv_rhs => unfold inferExpr
  | .literal _ | .column _ | .parameter _ | .arithmetic .. | .compare .. | .between ..
  | .inList .. | .inQuery .. | .like .. | .isNull .. | .and .. | .or .. | .not _ | .call ..
  | .case .. | .scalar _ | .hasRows _ | .star => rfl

/-- What is a column through parentheses is analysed as one. -/
theorem inferExpr_of_column? {setting : Setting} {scope : Scope} {c : ColumnRef} {e : Expr}
    (h : e.column? = some c) : inferExpr setting scope e = inferColumn scope c := by
  unfold Expr.column? at h
  split at h
  · next found hbare =>
    cases h
    rw [← inferExpr_bare, hbare]
    rfl
  · cases h

/-- The columns that a branch reads and those that it gives, from everything before its GROUP BY. -/
def inferFront (setting : Setting) (outer : List Level) (b : Branch) :
    Analyze (Sources × List OutputColumn) := do
  let start := (← get).placeholders.length
  let listed ← inferSources setting .empty b.sources
  let joined ← inferJoins setting outer listed (Sources.lastName b.sources) b.joins
  let later ← cutPlaceholders start
  let columns ← inferItems setting ⟨joined.columns, outer⟩ b.items
  appendPlaceholders later
  let _ ← inferSome setting ⟨joined.columns, outer⟩ b.criteria
  pure (joined, columns)

/-- What GROUP BY and HAVING see. -/
def groupedScope (outer : List Level) (front : Sources × List OutputColumn) : Scope :=
  ⟨front.1.columns, levelOf "" front.2 :: outer⟩

/-- The result of a branch. -/
def Branch.result (b : Branch) (outer : List Level) (front : Sources × List OutputColumn) :
    BranchResult :=
  .of front.1 ⟨front.1.columns, outer⟩ b.sources b.joins b.criteria b.group front.2

/-- The first branch of a query, and the columns that it has with all others. -/
def unionOf (text : String) : List BranchResult →
    Except AnalysisError (BranchResult × List OutputColumn)
  | [] => .error (.unsupported text)
  | first :: others => (unionColumns first.columns others).map fun columns => (first, columns)

/-- What ORDER BY sees. -/
def orderScope (outer : List Level) (head : BranchResult × List OutputColumn) : Scope :=
  ⟨levelOf "" head.2, head.1.visible :: outer⟩

namespace Analyze

@[simp] theorem outcome_get (r : Run) : (get : Analyze Run).outcome r = .ok (r, r) := rfl

theorem outcome_lift {α : Type} (x : Except AnalysisError α) (r : Run) :
    (lift x).outcome r = x.map fun value => (value, r) := by
  cases x <;> rfl

end Analyze

/-- A step that leaves the run as it is lifts a result. -/
theorem of_outcome_lift {α : Type} {x : Except AnalysisError α} {r s : Run} {a : α}
    (h : (lift x).outcome r = .ok (a, s)) : x = .ok a ∧ s = r := by
  rw [Analyze.outcome_lift] at h
  cases x with
  | error e => cases h
  | ok found =>
    cases h
    exact ⟨rfl, rfl⟩

theorem outcome_inferFront (setting : Setting) (outer : List Level) (b : Branch) (r : Run) :
    (inferFront setting outer b).outcome r =
      ((inferSources setting .empty b.sources).outcome r).bind fun listed =>
      ((inferJoins setting outer listed.1 (Sources.lastName b.sources) b.joins).outcome
        listed.2).bind fun joined =>
      ((inferItems setting ⟨joined.1.columns, outer⟩ b.items).outcome { joined.2 with
        placeholders := joined.2.placeholders.take r.placeholders.length }).bind fun items =>
      ((inferSome setting ⟨joined.1.columns, outer⟩ b.criteria).outcome { items.2 with
        placeholders := items.2.placeholders ++
          joined.2.placeholders.drop r.placeholders.length }).bind fun criteria =>
        .ok ((joined.1, items.1), criteria.2) := by
  unfold inferFront
  simp only [Analyze.outcome_bind]
  rfl

theorem outcome_inferBranch (setting : Setting) (outer : List Level) (b : Branch) (r : Run) :
    (inferBranch setting outer b).outcome r =
      ((inferFront setting outer b).outcome r).bind fun front =>
      ((inferAll setting (groupedScope outer front.1) b.group).outcome front.2).bind fun group =>
      ((inferSome setting (groupedScope outer front.1) b.having).outcome group.2).bind fun having =>
        .ok (b.result outer front.1, having.2) := by
  rcases b with ⟨distinct, items, sources, joins, criteria, group, having⟩
  unfold inferBranch inferFront
  simp only [Analyze.outcome_bind, bind_bind]
  rfl

theorem outcome_inferQuery (setting : Setting) (outer : List Level) (q : Select) (r : Run) :
    (inferQuery setting outer q).outcome r =
      ((inferCtes setting outer q.ctes).outcome r).bind fun ctes =>
      ((inferUnion setting outer q.branches).outcome ctes.2).bind fun branches =>
      (unionOf q.text branches.1).bind fun head =>
      ((inferOrder setting (orderScope outer head) q.order).outcome branches.2).bind fun order =>
      ((inferLimit setting ⟨head.1.visible, outer⟩ q.limit).outcome order.2).bind fun limit =>
        .ok (.of head.1 head.2 q.branches q.order q.limit, { limit.2 with ctes := r.ctes }) := by
  rw [inferQuery_eq, Parallel.outcome_keepingCtes]
  unfold inferBody
  simp only [Analyze.outcome_bind]
  cases (inferCtes setting outer q.ctes).outcome r with
  | error e => rfl
  | ok ctes =>
    simp only [Except.bind]
    cases (inferUnion setting outer q.branches).outcome ctes.2 with
    | error e => rfl
    | ok branches =>
      simp only
      cases branches.1 with
      | nil => rfl
      | cons first others =>
        simp only [Analyze.outcome_bind, Analyze.outcome_lift, unionOf]
        cases unionColumns first.columns others with
        | error e => rfl
        | ok columns =>
          simp only [Except.map, Except.bind, orderScope]
          cases (inferOrder setting ⟨levelOf "" columns, first.visible :: outer⟩ q.order).outcome
              branches.2 with
          | error e => rfl
          | ok order =>
            simp only
            cases (inferLimit setting ⟨first.visible, outer⟩ q.limit).outcome order.2 <;> rfl

/-- A branch after the one before it. -/
theorem outcome_inferUnion_cons (setting : Setting) (outer : List Level) (b : Branch)
    (rest : List Branch) (r : Run) :
    (inferUnion setting outer (b :: rest)).outcome r =
      ((inferBranch setting outer b).outcome r).bind fun first =>
      ((inferUnion setting outer rest).outcome first.2).bind fun others =>
        .ok (first.1 :: others.1, others.2) := by
  conv_lhs => unfold inferUnion
  simp only [Analyze.outcome_bind]
  rfl

/-- A query of one branch that has neither GROUP BY nor HAVING, without ORDER BY and LIMIT. -/
theorem outcome_plainQuery {setting : Setting} {ctes : List Cte} {b : Branch} {start r run : Run}
    {front : Sources × List OutputColumn} (hgroup : b.group = []) (hhaving : b.having = none)
    (hctes : (inferCtes setting [] ctes).outcome start = .ok ((), r))
    (hfront : (inferFront setting [] b).outcome r = .ok (front, run)) :
    (inferQuery setting [] ⟨ctes, [b], [], none⟩).outcome start =
      .ok (.of (b.result [] front) (b.result [] front).columns [b] [] none,
        { run with ctes := start.ctes }) := by
  rw [outcome_inferQuery]
  simp only [hctes, Except.bind, outcome_inferUnion_cons, outcome_inferBranch, hfront, hgroup,
    hhaving]
  rfl

/-! ## Walks that succeed -/

section

variable {setting : Setting} {outer : List Level} {b : Branch} {r s : Run}

/-- A front succeeds clause by clause. The placeholders of the FROM clause stay aside while the items
are walked. -/
theorem clauses_of_front {front : Sources × List OutputColumn}
    (h : (inferFront setting outer b).outcome r = .ok (front, s)) :
    ∃ listed rs rj ri found,
      (inferSources setting .empty b.sources).outcome r = .ok (listed, rs) ∧
      (inferJoins setting outer listed (Sources.lastName b.sources) b.joins).outcome rs =
        .ok (front.1, rj) ∧
      (inferItems setting ⟨front.1.columns, outer⟩ b.items).outcome { rj with
        placeholders := rj.placeholders.take r.placeholders.length } = .ok (front.2, ri) ∧
      (inferSome setting ⟨front.1.columns, outer⟩ b.criteria).outcome { ri with
        placeholders := ri.placeholders ++ rj.placeholders.drop r.placeholders.length } =
        .ok (found, s) := by
  rw [outcome_inferFront] at h
  obtain ⟨⟨listed, rs⟩, hlisted, h⟩ := bind_eq_ok.1 h
  obtain ⟨⟨joined, rj⟩, hjoined, h⟩ := bind_eq_ok.1 h
  obtain ⟨⟨columns, ri⟩, hitems, h⟩ := bind_eq_ok.1 h
  obtain ⟨⟨found, _⟩, hcriteria, h⟩ := bind_eq_ok.1 h
  cases h
  exact ⟨listed, rs, rj, ri, found, hlisted, hjoined, hitems, hcriteria⟩

theorem clauses_of_branch {result : BranchResult}
    (h : (inferBranch setting outer b).outcome r = .ok (result, s)) :
    ∃ front rf group rg having,
      (inferFront setting outer b).outcome r = .ok (front, rf) ∧
      (inferAll setting (groupedScope outer front) b.group).outcome rf = .ok (group, rg) ∧
      (inferSome setting (groupedScope outer front) b.having).outcome rg = .ok (having, s) ∧
      result = b.result outer front := by
  rw [outcome_inferBranch] at h
  obtain ⟨⟨front, rf⟩, hfront, h⟩ := bind_eq_ok.1 h
  obtain ⟨⟨group, rg⟩, hgroup, h⟩ := bind_eq_ok.1 h
  obtain ⟨⟨having, _⟩, hhaving, h⟩ := bind_eq_ok.1 h
  cases h
  exact ⟨front, rf, group, rg, having, hfront, hgroup, hhaving, rfl⟩

theorem clauses_of_query {q : Select} {result : QueryResult}
    (h : (inferQuery setting outer q).outcome r = .ok (result, s)) :
    ∃ rc results ru head ro rl,
      (inferCtes setting outer q.ctes).outcome r = .ok ((), rc) ∧
      (inferUnion setting outer q.branches).outcome rc = .ok (results, ru) ∧
      unionOf q.text results = .ok head ∧
      (inferOrder setting (orderScope outer head) q.order).outcome ru = .ok ((), ro) ∧
      (inferLimit setting ⟨head.1.visible, outer⟩ q.limit).outcome ro = .ok ((), rl) ∧
      result = .of head.1 head.2 q.branches q.order q.limit ∧ s = { rl with ctes := r.ctes } := by
  rw [outcome_inferQuery] at h
  obtain ⟨⟨_, rc⟩, hctes, h⟩ := bind_eq_ok.1 h
  obtain ⟨⟨results, ru⟩, hunion, h⟩ := bind_eq_ok.1 h
  obtain ⟨head, hhead, h⟩ := bind_eq_ok.1 h
  obtain ⟨⟨_, ro⟩, horder, h⟩ := bind_eq_ok.1 h
  obtain ⟨⟨_, rl⟩, hlimit, h⟩ := bind_eq_ok.1 h
  cases h
  exact ⟨rc, results, ru, head, ro, rl, hctes, hunion, hhead, horder, hlimit, rfl, rfl⟩

/-- A query has the columns of its first branch, put together with those of the others. -/
theorem unionOf_cons {text : String} {first : BranchResult} {others : List BranchResult}
    {head : BranchResult × List OutputColumn} (h : unionOf text (first :: others) = .ok head) :
    head.1 = first ∧ unionColumns first.columns others = .ok head.2 := by
  unfold unionOf at h
  cases hcolumns : unionColumns first.columns others with
  | error e => simp [hcolumns, Except.map] at h
  | ok columns =>
    simp only [hcolumns, Except.map, Except.ok.injEq] at h
    subst h
    exact ⟨rfl, rfl⟩

/-- A query without branches is refused. -/
theorem exists_of_unionOf {text : String} {results : List BranchResult}
    {head : BranchResult × List OutputColumn} (h : unionOf text results = .ok head) :
    ∃ others, results = head.1 :: others ∧ unionColumns head.1.columns others = .ok head.2 := by
  cases results with
  | nil => cases h
  | cons first others =>
    obtain ⟨hfirst, hcolumns⟩ := unionOf_cons h
    exact ⟨others, congrArg (· :: others) hfirst.symm, hfirst ▸ hcolumns⟩

/-- The branches of a union succeed one after the other. -/
theorem branches_of_union {rest : List Branch} {results : List BranchResult}
    (h : (inferUnion setting outer (b :: rest)).outcome r = .ok (results, s)) :
    ∃ first rb others, (inferBranch setting outer b).outcome r = .ok (first, rb) ∧
      (inferUnion setting outer rest).outcome rb = .ok (others, s) ∧ results = first :: others := by
  rw [outcome_inferUnion_cons] at h
  obtain ⟨⟨first, rb⟩, hfirst, h⟩ := bind_eq_ok.1 h
  obtain ⟨⟨others, _⟩, hothers, h⟩ := bind_eq_ok.1 h
  cases h
  exact ⟨first, rb, others, hfirst, hothers, rfl⟩

/-- A query has a first branch, whose front its columns and its relations come from. -/
theorem exists_front {q : Select} {result : QueryResult}
    (h : (inferQuery setting outer q).outcome r = .ok (result, s)) :
    ∃ branch rest rc front rf others, q.branches = branch :: rest ∧
      (inferCtes setting outer q.ctes).outcome r = .ok ((), rc) ∧
      (inferFront setting outer branch).outcome rc = .ok (front, rf) ∧
      unionColumns (branch.result outer front).columns others = .ok result.columns ∧
      result.relations = (branch.result outer front).relations ∧ (rest = [] → others = []) := by
  obtain ⟨rc, results, ru, head, ro, rl, hctes, hunion, hhead, -, -, rfl, -⟩ := clauses_of_query h
  obtain ⟨others, rfl, hcolumns⟩ := exists_of_unionOf hhead
  cases hbranches : q.branches with
  | nil =>
    rw [hbranches] at hunion
    cases hunion
  | cons branch rest =>
    rw [hbranches] at hunion
    obtain ⟨first, rb, others', hbranch, hothers, heq⟩ := branches_of_union hunion
    obtain ⟨rfl, rfl⟩ := List.cons.inj heq
    obtain ⟨front, rf, group, rg, having, hfront, -, -, hfirst⟩ := clauses_of_branch hbranch
    refine ⟨branch, rest, rc, front, rf, others, rfl, hctes, hfront, hfirst ▸ hcolumns,
      congrArg BranchResult.relations hfirst, ?_⟩
    rintro rfl
    cases hothers
    rfl

end

/-! ## Projections that succeed -/

/-- An item after the one before it. -/
theorem outcome_inferItems_cons (setting : Setting) (scope : Scope) (item : Item)
    (rest : List Item) (r : Run) :
    (inferItems setting scope (item :: rest)).outcome r =
      ((inferItem setting scope item).outcome r).bind fun first =>
      ((inferItems setting scope rest).outcome first.2).bind fun others =>
        .ok (first.1 ++ others.1, others.2) := by
  conv_lhs => unfold inferItems
  simp only [Analyze.outcome_bind]
  rfl

section

variable {setting : Setting} {scope : Scope} {r s : Run} {cs : List OutputColumn}

theorem items_of_cons {item : Item} {rest : List Item}
    (h : (inferItems setting scope (item :: rest)).outcome r = .ok (cs, s)) :
    ∃ first t others, (inferItem setting scope item).outcome r = .ok (first, t) ∧
      (inferItems setting scope rest).outcome t = .ok (others, s) ∧ cs = first ++ others := by
  rw [outcome_inferItems_cons] at h
  obtain ⟨⟨first, t⟩, hfirst, h⟩ := bind_eq_ok.1 h
  obtain ⟨⟨others, _⟩, hothers, h⟩ := bind_eq_ok.1 h
  cases h
  exact ⟨first, t, others, hfirst, hothers, rfl⟩

/-- A value is projected as one column. -/
theorem value_of_item {value : Expr} {aliasName : Option String}
    (h : (inferItem setting scope (.expr value aliasName)).outcome r = .ok (cs, s)) :
    ∃ inferred, (inferExpr setting scope value).outcome r = .ok (inferred, s) ∧
      cs = [.ofInferred (outputName value aliasName) inferred] := by
  unfold inferItem at h
  rw [Analyze.outcome_bind] at h
  obtain ⟨⟨inferred, _⟩, hvalue, h⟩ := bind_eq_ok.1 h
  cases h
  exact ⟨inferred, hvalue, rfl⟩

/-- The star of a table is one of its columns alone. -/
theorem star_of_tableStar {table : String}
    (h : (inferItem setting scope (.tableStar table)).outcome r = .ok (cs, s)) :
    (inferStar (scope.columns.ofTable table)).outcome r = .ok (cs, s) := by
  unfold inferItem at h
  split at h
  · cases h
  · exact h

theorem columns_of_star {column : SourceColumn} {rest : Level}
    (h : (inferStar (column :: rest)).outcome r = .ok (cs, s)) :
    ∃ first t others, (inferStarColumn column).outcome r = .ok (first, t) ∧
      (inferStar rest).outcome t = .ok (others, s) ∧ cs = first :: others := by
  unfold inferStar at h
  simp only [Analyze.outcome_bind] at h
  obtain ⟨⟨first, t⟩, hfirst, h⟩ := bind_eq_ok.1 h
  obtain ⟨⟨others, _⟩, hothers, h⟩ := bind_eq_ok.1 h
  cases h
  exact ⟨first, t, others, hfirst, hothers, rfl⟩

theorem reference_of_starColumn {column : SourceColumn} {c : OutputColumn}
    (h : (inferStarColumn column).outcome r = .ok (c, s)) :
    ∃ var, (reference column).outcome r = .ok (var, s) ∧
      c = .ofInferred column.name (.ofColumn var column) := by
  unfold inferStarColumn at h
  rw [Analyze.outcome_bind] at h
  obtain ⟨⟨var, _⟩, hvar, h⟩ := bind_eq_ok.1 h
  cases h
  exact ⟨var, hvar, rfl⟩

variable {P : OutputColumn → Prop}

/-- What holds of any reference to a column of a level holds of the columns that its star gives. -/
theorem forall_of_star {level : Level}
    (hcolumn : ∀ column ∈ level, ∀ var, P (.ofInferred column.name (.ofColumn var column)))
    (h : (inferStar level).outcome r = .ok (cs, s)) : ∀ c ∈ cs, P c := by
  induction level generalizing r cs with
  | nil =>
    cases h
    exact fun _ hc => absurd hc List.not_mem_nil
  | cons column rest ih =>
    obtain ⟨first, t, others, hfirst, hothers, rfl⟩ := columns_of_star h
    obtain ⟨var, -, rfl⟩ := reference_of_starColumn hfirst
    obtain ⟨hown, hrest⟩ := List.forall_mem_cons.1 hcolumn
    exact List.forall_mem_cons.2 ⟨hown var, ih hrest hothers⟩

/-- What holds of any reference to a column of the scope and of the values among the items holds of
the projected columns. -/
theorem forall_of_items {items : List Item}
    (hcolumn : ∀ column ∈ scope.columns, ∀ var, P (.ofInferred column.name (.ofColumn var column)))
    (hvalue : ∀ value aliasName, .expr value aliasName ∈ items → ∀ r inferred s,
      (inferExpr setting scope value).outcome r = .ok (inferred, s) →
        P (.ofInferred (outputName value aliasName) inferred))
    (h : (inferItems setting scope items).outcome r = .ok (cs, s)) : ∀ c ∈ cs, P c := by
  induction items generalizing r cs with
  | nil =>
    cases h
    exact fun _ hc => absurd hc List.not_mem_nil
  | cons item rest ih =>
    obtain ⟨first, t, others, hfirst, hothers, rfl⟩ := items_of_cons h
    have hrest := ih (fun value aliasName hmem => hvalue value aliasName (List.mem_cons_of_mem _ hmem))
      hothers
    refine List.forall_mem_append.2 ⟨?_, hrest⟩
    cases item with
    | star => exact forall_of_star hcolumn hfirst
    | tableStar table =>
      exact forall_of_star (fun column hmem => hcolumn column (List.mem_of_mem_filter hmem))
        (star_of_tableStar hfirst)
    | expr value aliasName =>
      obtain ⟨inferred, hinferred, rfl⟩ := value_of_item hfirst
      exact List.forall_mem_singleton.2
        (hvalue value aliasName List.mem_cons_self r inferred t hinferred)

end

/-! ## Tables -/

/-- The columns of a table by its records. -/
theorem rel_freshColumns {R : ColumnRecord → SourceColumn → Prop} {aliasName : String}
    (hR : ∀ (record : ColumnRecord) (var : TypeVar), var.info = .exact record.type →
      var.projected = false →
        R record ⟨record.table, aliasName, record.column, var, record.key, record.notNull⟩)
    {records : List ColumnRecord} {r s : Run} {level : Level}
    (h : (freshColumns aliasName records).outcome r = .ok (level, s)) :
    List.Forall₂ R records level := by
  induction records generalizing r level with
  | nil =>
    cases h
    exact .nil
  | cons record rest ih =>
    unfold freshColumns at h
    simp only [Analyze.outcome_bind] at h
    obtain ⟨⟨var, t⟩, hvar, h⟩ := bind_eq_ok.1 h
    obtain ⟨⟨others, _⟩, hothers, h⟩ := bind_eq_ok.1 h
    cases h
    cases hvar
    exact .cons (hR record _ rfl rfl) (ih hothers)

/-- The columns of a table are those of a common table of its name, under its alias, and if there is
none those of its records. -/
theorem columns_of_table {schema : Schema} {name : String} {aliasName : Option String} {r s : Run}
    {level : Level} (h : (tableColumns schema name aliasName).outcome r = .ok (level, s)) :
    (∃ columns, r.cte? (lastSegment name) = some columns ∧ s = r ∧
      level = columns.map fun column => { column with aliasName := aliasName.getD "" }) ∨
    (r.cte? (lastSegment name) = none ∧ ∃ records,
      schema.columnsOf? (lastSegment name) = some records ∧
        (freshColumns (aliasName.getD "") records).outcome r = .ok (level, s)) := by
  unfold tableColumns at h
  rw [Analyze.outcome_bind, Analyze.outcome_get, ok_bind] at h
  cases hcte : r.cte? (lastSegment name) with
  | some columns =>
    simp only [hcte] at h
    cases h
    exact .inl ⟨columns, rfl, rfl, rfl⟩
  | none =>
    simp only [hcte] at h
    cases hfound : schema.columnsOf? (lastSegment name) with
    | none =>
      simp only [hfound] at h
      cases h
    | some records =>
      simp only [hfound] at h
      exact .inr ⟨rfl, records, rfl, h⟩

theorem level_of_commonTable {schema : Schema} {name : String} {aliasName : Option String}
    {r s : Run} {columns level : Level} (hcte : r.cte? (lastSegment name) = some columns)
    (h : (tableColumns schema name aliasName).outcome r = .ok (level, s)) :
    level = columns.map fun column => { column with aliasName := aliasName.getD "" } := by
  rcases columns_of_table h with ⟨columns', hcommon, -, rfl⟩ | ⟨hhidden, -⟩
  · rw [Option.some.inj (hcte.symm.trans hcommon)]
  · exact absurd (hhidden.symm.trans hcte) nofun

/-- Where no common table hides it, a table has the columns of its records. -/
theorem records_of_table {schema : Schema} {name : String} {aliasName : Option String} {r s : Run}
    {level : Level} (hhidden : r.cte? (lastSegment name) = none)
    (h : (tableColumns schema name aliasName).outcome r = .ok (level, s)) :
    ∃ records, schema.columnsOf? (lastSegment name) = some records ∧
      (freshColumns (aliasName.getD "") records).outcome r = .ok (level, s) := by
  rcases columns_of_table h with ⟨columns, hcommon, -⟩ | ⟨-, hrecords⟩
  · exact absurd (hhidden.symm.trans hcommon) nofun
  · exact hrecords

theorem query_of_derived {setting : Setting} {q : Select} {aliasName : String} {r s : Run}
    {level : Level} (h : (inferSource setting (.derived q aliasName)).outcome r = .ok (level, s)) :
    ∃ result, (inferQuery setting [] q).outcome r = .ok (result, s) ∧
      level = levelOf aliasName result.columns := by
  unfold inferSource at h
  rw [Analyze.outcome_bind] at h
  obtain ⟨⟨result, t⟩, hquery, h⟩ := bind_eq_ok.1 h
  cases h
  exact ⟨result, hquery, rfl⟩

/-! ## Statements that succeed -/

theorem outcome_inferUpdate (setting : Setting) (table : String) (assignments : List Assignment)
    (criteria : Option Expr) (r : Run) :
    (inferUpdate setting table assignments criteria).outcome r =
      ((tableColumns setting.schema table none).outcome r).bind fun columns =>
      ((inferAssignments setting ⟨columns.1, []⟩ assignments).outcome columns.2).bind fun assigned =>
      ((inferSome setting ⟨columns.1, []⟩ criteria).outcome assigned.2).bind fun found =>
        .ok (assigned.2.placeholders.length, found.2) := by
  unfold inferUpdate
  simp only [Analyze.outcome_bind]
  rfl

section

variable {setting : Setting} {table : String} {r s : Run}

theorem clauses_of_update {assignments : List Assignment} {criteria : Option Expr} {written : Nat}
    (h : (inferUpdate setting table assignments criteria).outcome r = .ok (written, s)) :
    ∃ columns read assigned found,
      (tableColumns setting.schema table none).outcome r = .ok (columns, read) ∧
      (inferAssignments setting ⟨columns, []⟩ assignments).outcome read = .ok ((), assigned) ∧
      (inferSome setting ⟨columns, []⟩ criteria).outcome assigned = .ok (found, s) ∧
      written = assigned.placeholders.length := by
  rw [outcome_inferUpdate] at h
  obtain ⟨⟨columns, read⟩, htable, h⟩ := bind_eq_ok.1 h
  obtain ⟨⟨_, assigned⟩, hassignments, h⟩ := bind_eq_ok.1 h
  obtain ⟨⟨found, _⟩, hcriteria, h⟩ := bind_eq_ok.1 h
  cases h
  exact ⟨columns, read, assigned, found, htable, hassignments, hcriteria, rfl⟩

theorem clauses_of_delete {criteria : Option Expr} {done : Unit}
    (h : (inferDelete setting table criteria).outcome r = .ok (done, s)) :
    ∃ columns read found,
      (tableColumns setting.schema table none).outcome r = .ok (columns, read) ∧
      (inferSome setting ⟨columns, []⟩ criteria).outcome read = .ok (found, s) := by
  unfold inferDelete at h
  simp only [Analyze.outcome_bind] at h
  obtain ⟨⟨columns, read⟩, htable, h⟩ := bind_eq_ok.1 h
  obtain ⟨⟨found, _⟩, hcriteria, h⟩ := bind_eq_ok.1 h
  cases h
  exact ⟨columns, read, found, htable, hcriteria⟩

/-- An INSERT finds its columns before it walks over what it inserts. -/
theorem targets_of_insert {columns : List String} {rows : InsertRows} {done : Unit}
    (h : (inferInsert setting table columns rows).outcome r = .ok (done, s)) :
    ∃ all read targets, (tableColumns setting.schema table none).outcome r = .ok (all, read) ∧
      targetColumns all columns = .ok targets ∧
      (∀ vs, rows = .values vs → (inferRows setting targets vs).outcome read = .ok ((), s)) ∧
      ∀ q, rows = .query q → ∃ result t, (inferQuery setting [] q).outcome read = .ok (result, t) ∧
        result.columns.length = targets.length ∧
        (bindRow q.text targets (result.columns.map fun c => ⟨c.var, c.placeholder⟩)).outcome t =
          .ok ((), s) := by
  unfold inferInsert at h
  simp only [Analyze.outcome_bind] at h
  obtain ⟨⟨all, read⟩, htable, hrest⟩ := bind_eq_ok.1 h
  obtain ⟨⟨targets, same⟩, htargets, hrows⟩ := bind_eq_ok.1 hrest
  clear h hrest
  obtain ⟨hfound, rfl⟩ := of_outcome_lift htargets
  refine ⟨all, same, targets, htable, hfound, ?_, ?_⟩
  · rintro vs rfl
    exact hrows
  · rintro q rfl
    dsimp only at hrows
    rw [Analyze.outcome_bind] at hrows
    obtain ⟨⟨result, t⟩, hquery, hbind⟩ := bind_eq_ok.1 hrows
    dsimp only at hbind
    split at hbind
    · cases hbind
    · next hlength => exact ⟨result, t, hquery, Decidable.not_not.1 hlength, hbind⟩

end

/-! ## Queries of one branch -/

/-- The columns of a branch alone are united with no others. -/
theorem unionVars_of_front {setting : Setting} {outer : List Level} {b : Branch}
    {front : Sources × List OutputColumn} {r s : Run}
    (h : (inferFront setting outer b).outcome r = .ok (front, s)) :
    ∀ c ∈ (b.result outer front).columns, c.unionVars = [] := by
  obtain ⟨listed, rs, rj, ri, found, -, -, hitems, -⟩ := clauses_of_front h
  intro c hc
  obtain ⟨d, hd, rfl⟩ := List.mem_map.1 hc
  exact forall_of_items (P := fun c => c.unionVars = []) (fun _ _ _ => rfl)
    (fun _ _ _ _ _ _ _ => rfl) hitems d hd

theorem unionVars_of_branch {setting : Setting} {outer : List Level} {b : Branch}
    {result : BranchResult} {r s : Run}
    (h : (inferBranch setting outer b).outcome r = .ok (result, s)) :
    ∀ c ∈ result.columns, c.unionVars = [] := by
  obtain ⟨front, rf, group, rg, having, hfront, -, -, rfl⟩ := clauses_of_branch h
  exact unionVars_of_front hfront

/-- The columns of a query of one branch are those of the branch alone. -/
theorem unionVars_of_query {setting : Setting} {outer : List Level} {q : Select} {r s : Run}
    {result : QueryResult} (hbranches : q.branches.length = 1)
    (h : (inferQuery setting outer q).outcome r = .ok (result, s)) :
    ∀ c ∈ result.columns, c.unionVars = [] := by
  obtain ⟨b, hb⟩ := List.length_eq_one_iff.1 hbranches
  obtain ⟨branch, rest, rc, front, rf, others, heq, -, hfront, hcolumns, -, hothers⟩ := exists_front h
  obtain ⟨rfl, rfl⟩ := List.cons.inj (hb.symm.trans heq)
  obtain rfl := hothers rfl
  exact Except.ok.inj hcolumns ▸ unionVars_of_front hfront

end QuerySignature
